import HotFields.Program.Query
import HotFields.Program.Validate
import Mathlib.Tactic.MkIffOfInductiveProp

namespace HotFields

theorem check_then_eq_ok_iff {ε β : Type} {check : Except ε Unit} {next : Except ε β} {b : β} :
    (check >>= fun _ => next) = .ok b ↔ check = .ok () ∧ next = .ok b := by
  cases check with
  | error e => simp [bind, Except.bind]
  | ok a => simp [bind, Except.bind]

theorem forM_eq_ok_iff {ε α : Type} {f : α → Except ε Unit} {as : List α} :
    as.forM f = .ok () ↔ ∀ a ∈ as, f a = .ok () := by
  induction as with
  | nil => simp [pure, Except.pure]
  | cons a rest ih =>
    change (f a >>= fun _ => rest.forM f) = .ok () ↔ _
    rw [check_then_eq_ok_iff, ih]
    simp

namespace Program

theorem checkListed_eq_ok_iff {p : Program} {i : InstId} :
    p.checkListed i = .ok () ↔ i.index.toNat < p.instructions.size := by
  unfold checkListed
  split <;> simp_all

theorem checkFunction_eq_ok_iff {p : Program} {f : FunctionId} :
    p.checkFunction f = .ok () ↔ f.index.toNat < p.functions.size := by
  unfold checkFunction
  split <;> simp_all

/-- A program passes exactly if every object of it passes its own check. -/
theorem validate_eq_ok_iff {p : Program} :
    p.validate = .ok () ↔
      (∀ d ∈ p.types.toList, p.checkTypeDef d = .ok ()) ∧
      (∀ g ∈ p.globals.toList, p.checkType g.valueType = .ok ()) ∧
      (∀ c ∈ p.constants.toList, p.checkConstant c = .ok ()) ∧
      (∀ i ∈ p.instructions.toList, p.checkInstruction i = .ok ()) ∧
      (∀ f ∈ p.functions.toList, ∀ b ∈ f.blocks, ∀ i ∈ b.insts, p.checkListed i = .ok ()) := by
  unfold validate
  simp only [check_then_eq_ok_iff, forM_eq_ok_iff]

end Program

/-- The types that a type definition refers to. -/
def TypeDef.parts : TypeDef → List TypeId
  | .pointer pointee => pointee.toList
  | .array element _ => [element]
  | .vector element _ => [element]
  | .struct _ fields => fields
  | .void | .int _ | .float _ => []

/-- The type that an instruction refers to. -/
def Instruction.type? : Instruction → Option TypeId
  | .gep sourceType _ _ => some sourceType
  | .load type _ => some type
  | _ => none

/-- The function that an instruction calls directly. -/
def Instruction.callee? : Instruction → Option FunctionId
  | .call (.direct function) _ => some function
  | _ => none

/-- An instruction has a value as an operand, in one of the places that instructions of its kind have. -/
inductive Instruction.Has (v : Value) : Instruction → Prop
  | gepBase (t : TypeId) (indices : List Value) : Has v (.gep t v indices)
  | gepIndex (t : TypeId) (base : Value) {indices : List Value} (index : v ∈ indices) :
    Has v (.gep t base indices)
  | loadAddress (t : TypeId) : Has v (.load t v)
  | storeValue (address : Value) : Has v (.store v address)
  | storeAddress (value : Value) : Has v (.store value v)
  | callArgument (callee : Callee) {args : List Value} (arg : v ∈ args) : Has v (.call callee args)
  | callTarget (args : List Value) : Has v (.call (.indirect v) args)
  | otherOperand (opcode : String) {operands : List Value} (operand : v ∈ operands) :
    Has v (.other opcode operands)

theorem Instruction.has_iff_mem_operands {v : Value} {i : Instruction} : i.Has v ↔ v ∈ i.operands := by
  constructor
  · intro h
    cases h with
    | callArgument callee arg => cases callee <;> simp [operands, arg]
    | _ => simp_all [operands]
  · intro h
    cases i with
    | gep t base indices =>
      rcases List.mem_cons.mp h with rfl | index
      · exact .gepBase t indices
      · exact .gepIndex t base index
    | load t address =>
      obtain rfl := List.mem_singleton.mp h
      exact .loadAddress t
    | store value address =>
      rcases List.mem_cons.mp h with rfl | h
      · exact .storeValue address
      · obtain rfl := List.mem_singleton.mp h
        exact .storeAddress value
    | call callee args =>
      cases callee with
      | direct f => exact .callArgument _ h
      | indirect target =>
        rcases List.mem_append.mp h with arg | h
        · exact .callArgument _ arg
        · obtain rfl := List.mem_singleton.mp h
          exact .callTarget args
    | other opcode operands => exact .otherOperand opcode h

instance (v : Value) (i : Instruction) : Decidable (i.Has v) :=
  decidable_of_iff _ Instruction.has_iff_mem_operands.symm

namespace Program

/-- An operand that is an integer or names an existing object. -/
def Resolves (p : Program) : Value → Prop
  | .constInt _ => True
  | .global id => id.index.toNat < p.globals.size
  | .argument function index => ∃ f, p.function? function = some f ∧ index < f.params
  | .inst id => id.index.toNat < p.instructions.size
  | .const id => id.index.toNat < p.constants.size

/-- Every reference of a program resolves. -/
structure Closed (p : Program) : Prop where
  types : ∀ d ∈ p.types.toList, ∀ t ∈ d.parts, t.index.toNat < p.types.size
  globals : ∀ g ∈ p.globals.toList, g.valueType.index.toNat < p.types.size
  constants : ∀ c ∈ p.constants.toList, c.sourceType.index.toNat < p.types.size ∧
    p.Resolves c.base ∧ ∀ v ∈ c.indices, p.Resolves v
  instructions : ∀ i ∈ p.instructions.toList, (∀ t ∈ i.type?, t.index.toNat < p.types.size) ∧
    (∀ f ∈ i.callee?, f.index.toNat < p.functions.size) ∧ ∀ v, i.Has v → p.Resolves v
  listing : ∀ i ∈ p.listing, i.index.toNat < p.instructions.size

/-- No arena holds more objects than 32 bits tell apart, so that every object has an id of its own. -/
@[mk_iff]
structure Addressable (p : Program) : Prop where
  types : p.types.size ≤ UInt32.size
  globals : p.globals.size ≤ UInt32.size
  functions : p.functions.size ≤ UInt32.size
  instructions : p.instructions.size ≤ UInt32.size
  constants : p.constants.size ≤ UInt32.size

instance (p : Program) : Decidable p.Addressable :=
  decidable_of_iff _ (addressable_iff p).symm

theorem checkType_eq_ok_iff {p : Program} {t : TypeId} :
    p.checkType t = .ok () ↔ t.index.toNat < p.types.size := by
  unfold checkType
  split <;> simp_all

/-- An integer constant resolves whatever it is; an argument needs its function and its position there. -/
theorem checkValue_eq_ok_iff {p : Program} {v : Value} :
    p.checkValue v = .ok () ↔ p.Resolves v := by
  cases v with
  | constInt n => exact iff_of_true rfl trivial
  | global id =>
    unfold checkValue Resolves
    split <;> simp_all
  | argument function index =>
    cases hf : p.function? function with
    | none => simp [checkValue, Resolves, hf]
    | some f =>
      simp only [checkValue, Resolves, hf, Option.some.injEq, exists_eq_left']
      split <;> simp_all
  | inst id => exact checkListed_eq_ok_iff
  | const id =>
    unfold checkValue Resolves
    split <;> simp_all

theorem checkTypeDef_eq_ok_iff {p : Program} {d : TypeDef} :
    p.checkTypeDef d = .ok () ↔ ∀ t ∈ d.parts, t.index.toNat < p.types.size := by
  cases d with
  | pointer pointee =>
    cases pointee with
    | none => simp [checkTypeDef, TypeDef.parts]
    | some t => simp [checkTypeDef, TypeDef.parts, checkType_eq_ok_iff]
  | array t length => simp [checkTypeDef, TypeDef.parts, checkType_eq_ok_iff]
  | vector t length => simp [checkTypeDef, TypeDef.parts, checkType_eq_ok_iff]
  | struct name fields => simp only [checkTypeDef, TypeDef.parts, forM_eq_ok_iff, checkType_eq_ok_iff]
  | _ => simp [checkTypeDef, TypeDef.parts]

theorem checkConstant_eq_ok_iff {p : Program} {c : ConstGep} :
    p.checkConstant c = .ok () ↔ c.sourceType.index.toNat < p.types.size ∧ p.Resolves c.base ∧
      ∀ v ∈ c.indices, p.Resolves v := by
  unfold checkConstant
  simp only [check_then_eq_ok_iff, forM_eq_ok_iff, checkType_eq_ok_iff, checkValue_eq_ok_iff]

/-- The order of the checks does not matter to whether all of them succeed. -/
theorem checkInstruction_eq_ok_iff {p : Program} {i : Instruction} :
    p.checkInstruction i = .ok () ↔ (∀ t ∈ i.type?, t.index.toNat < p.types.size) ∧
      (∀ f ∈ i.callee?, f.index.toNat < p.functions.size) ∧ ∀ v, i.Has v → p.Resolves v := by
  have hguard : ∀ check : Except Dangling Unit,
      (check >>= fun _ => i.operands.forM p.checkValue) = .ok () ↔
        check = .ok () ∧ ∀ v, i.Has v → p.Resolves v := by
    intro check
    simp only [check_then_eq_ok_iff, forM_eq_ok_iff, checkValue_eq_ok_iff, Instruction.has_iff_mem_operands]
  cases i with
  | gep t base indices =>
    refine (hguard (p.checkType t)).trans ?_
    simp [Instruction.type?, Instruction.callee?, checkType_eq_ok_iff]
  | load t address =>
    refine (hguard (p.checkType t)).trans ?_
    simp [Instruction.type?, Instruction.callee?, checkType_eq_ok_iff]
  | call callee args =>
    cases callee with
    | direct f =>
      refine (hguard (p.checkFunction f)).trans ?_
      simp [Instruction.type?, Instruction.callee?, checkFunction_eq_ok_iff]
    | indirect target =>
      refine (hguard (.ok ())).trans ?_
      simp [Instruction.type?, Instruction.callee?]
  | _ =>
    refine (hguard (.ok ())).trans ?_
    simp [Instruction.type?, Instruction.callee?]

/-- The reference check accepts exactly the programs in which no reference dangles. -/
theorem validate_eq_ok_iff_closed {p : Program} : p.validate = .ok () ↔ p.Closed := by
  rw [validate_eq_ok_iff]
  simp only [checkTypeDef_eq_ok_iff, checkType_eq_ok_iff, checkConstant_eq_ok_iff,
    checkInstruction_eq_ok_iff, checkListed_eq_ok_iff]
  constructor
  · rintro ⟨types, globals, constants, instructions, blocks⟩
    refine ⟨types, globals, constants, instructions, ?_⟩
    intro i hi
    obtain ⟨f, hf, hi⟩ := List.mem_flatMap.mp hi
    obtain ⟨b, hb, hi⟩ := List.mem_flatMap.mp hi
    exact blocks f hf b hb i hi
  · rintro ⟨types, globals, constants, instructions, listing⟩
    refine ⟨types, globals, constants, instructions, ?_⟩
    intro f hf b hb i hi
    exact listing i (List.mem_flatMap.mpr ⟨f, hf, List.mem_flatMap.mpr ⟨b, hb, hi⟩⟩)

theorem listed_lt_size {p : Program} (valid : p.validate = .ok ()) {i : InstId}
    (hi : i ∈ p.listing) : i.index.toNat < p.instructions.size :=
  (validate_eq_ok_iff_closed.mp valid).listing i hi

theorem callee_lt_size {p : Program} (valid : p.validate = .ok ()) {i : InstId} {f : FunctionId}
    (hc : p.directCallee i = some f) : f.index.toNat < p.functions.size := by
  unfold directCallee at hc
  split at hc
  next callee args hi =>
    cases Option.some.inj hc
    have hm : Instruction.call (.direct f) args ∈ p.instructions.toList :=
      Array.mem_toList_iff.mpr (Array.mem_of_getElem? hi)
    exact ((validate_eq_ok_iff_closed.mp valid).instructions _ hm).2.1 f rfl
  next => cases hc

end Program

end HotFields
