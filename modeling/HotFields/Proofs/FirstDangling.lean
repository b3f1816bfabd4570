import HotFields.Proofs.ValidReferences

namespace HotFields

/-- A place where an object is named. -/
inductive Reference where
  | type (id : TypeId)
  | callee (id : FunctionId)
  | operand (v : Value)
  | listed (id : InstId)

namespace Reference

/-- What is reported of a reference that names nothing. An argument has two ways to be missing: its function is, or the
function has too few parameters. -/
inductive Missing (p : Program) : Reference → Dangling → Prop
  | type {id : TypeId} (outside : p.types.size ≤ id.index.toNat) :
    Missing p (.type id) ⟨.type, id.index⟩
  | callee {id : FunctionId} (outside : p.functions.size ≤ id.index.toNat) :
    Missing p (.callee id) ⟨.function, id.index⟩
  | global {id : GlobalId} (outside : p.globals.size ≤ id.index.toNat) :
    Missing p (.operand (.global id)) ⟨.global, id.index⟩
  | function {id : FunctionId} {index : UInt32} (outside : p.functions.size ≤ id.index.toNat) :
    Missing p (.operand (.argument id index)) ⟨.function, id.index⟩
  | argument {id : FunctionId} {index : UInt32} {f : Function} (found : p.function? id = some f)
    (beyond : f.params ≤ index) : Missing p (.operand (.argument id index)) ⟨.argument, index⟩
  | inst {id : InstId} (outside : p.instructions.size ≤ id.index.toNat) :
    Missing p (.operand (.inst id)) ⟨.instruction, id.index⟩
  | const {id : ConstId} (outside : p.constants.size ≤ id.index.toNat) :
    Missing p (.operand (.const id)) ⟨.constant, id.index⟩
  | listed {id : InstId} (outside : p.instructions.size ≤ id.index.toNat) :
    Missing p (.listed id) ⟨.instruction, id.index⟩

def check (p : Program) : Reference → Except Dangling Unit
  | .type id => p.checkType id
  | .callee id => p.checkFunction id
  | .operand v => p.checkValue v
  | .listed id => p.checkListed id

theorem guard_eq_error_iff {inside : Prop} [Decidable inside] {d e : Dangling} :
    (if inside then .ok () else .error d : Except Dangling Unit) = .error e ↔ ¬inside ∧ d = e := by
  split <;> simp_all

/-- What a failed check reports: the id itself, but for an argument its function if that is missing, and else its
position. -/
theorem check_eq_error_iff {p : Program} {r : Reference} {d : Dangling} :
    r.check p = .error d ↔ r.Missing p d := by
  constructor
  · intro h
    cases r with
    | type id =>
      obtain ⟨outside, rfl⟩ := guard_eq_error_iff.mp h
      exact .type (Nat.not_lt.mp outside)
    | callee id =>
      obtain ⟨outside, rfl⟩ := guard_eq_error_iff.mp h
      exact .callee (Nat.not_lt.mp outside)
    | listed id =>
      obtain ⟨outside, rfl⟩ := guard_eq_error_iff.mp h
      exact .listed (Nat.not_lt.mp outside)
    | operand v =>
      cases v with
      | constInt n => cases h
      | global id =>
        obtain ⟨outside, rfl⟩ := guard_eq_error_iff.mp h
        exact .global (Nat.not_lt.mp outside)
      | inst id =>
        obtain ⟨outside, rfl⟩ := guard_eq_error_iff.mp h
        exact .inst (Nat.not_lt.mp outside)
      | const id =>
        obtain ⟨outside, rfl⟩ := guard_eq_error_iff.mp h
        exact .const (Nat.not_lt.mp outside)
      | argument id index =>
        cases hf : p.function? id with
        | none =>
          simp only [check, Program.checkValue, hf, Except.error.injEq] at h
          obtain rfl := h
          exact .function (Array.getElem?_eq_none_iff.mp hf)
        | some f =>
          simp only [check, Program.checkValue, hf] at h
          obtain ⟨beyond, rfl⟩ := guard_eq_error_iff.mp h
          exact .argument hf (UInt32.not_lt.mp beyond)
  · intro h
    cases h with
    | function outside =>
      have hf := Array.getElem?_eq_none_iff.mpr outside
      simp only [check, Program.checkValue, Program.function?, hf]
    | argument found beyond =>
      simp only [check, Program.checkValue, found]
      exact guard_eq_error_iff.mpr ⟨UInt32.not_lt.mpr beyond, rfl⟩
    | _ outside => exact guard_eq_error_iff.mpr ⟨Nat.not_lt.mpr outside, rfl⟩

theorem check_eq_ok_iff {p : Program} {r : Reference} :
    r.check p = .ok () ↔ ∀ d, ¬r.Missing p d := by
  simp only [← check_eq_error_iff]
  cases r.check p with
  | ok _ => simp
  | error d => simp

end Reference

def ConstGep.references (c : ConstGep) : List Reference :=
  .type c.sourceType :: .operand c.base :: c.indices.map .operand

/-- The type or the direct callee first, then the operands. The target of an indirect call comes after its arguments. -/
def Instruction.references : Instruction → List Reference
  | .gep t base indices => .type t :: .operand base :: indices.map .operand
  | .load t address => [.type t, .operand address]
  | .store value address => [.operand value, .operand address]
  | .call (.direct callee) args => .callee callee :: args.map .operand
  | .call (.indirect target) args => args.map .operand ++ [.operand target]
  | .other _ operands => operands.map .operand

theorem Instruction.references_eq (i : Instruction) :
    i.references = i.type?.toList.map .type ++ i.callee?.toList.map .callee ++ i.operands.map .operand := by
  cases i with
  | call callee args => cases callee <;> simp [references, type?, callee?, operands]
  | _ => simp [references, type?, callee?, operands]

/-- Every reference of a program: those of types, globals, constants and instructions, and the block lists. An instruction
counts whether a block lists it or not. -/
def Program.references (p : Program) : List Reference :=
  p.types.toList.flatMap (fun d => d.parts.map .type) ++
    p.globals.toList.map (fun g => .type g.valueType) ++
    p.constants.toList.flatMap ConstGep.references ++
    p.instructions.toList.flatMap Instruction.references ++
    p.listing.map .listed

namespace Program

variable {p : Program}

theorem mem_references_of_type {d : TypeDef} (hd : d ∈ p.types.toList) {t : TypeId} (ht : t ∈ d.parts) :
    .type t ∈ p.references := by
  have htypes : Reference.type t ∈ p.types.toList.flatMap fun d => d.parts.map .type :=
    List.mem_flatMap.mpr ⟨d, hd, List.mem_map_of_mem ht⟩
  simp only [references, List.mem_append, htypes, true_or]

theorem mem_references_of_global {g : Global} (hg : g ∈ p.globals.toList) : .type g.valueType ∈ p.references := by
  have hglobals : Reference.type g.valueType ∈ p.globals.toList.map fun g => .type g.valueType :=
    List.mem_map_of_mem hg
  simp only [references, List.mem_append, hglobals, true_or, or_true]

theorem mem_references_of_constant {c : ConstGep} (hc : c ∈ p.constants.toList) {r : Reference}
    (hr : r ∈ c.references) : r ∈ p.references := by
  have hconstants : r ∈ p.constants.toList.flatMap ConstGep.references := List.mem_flatMap.mpr ⟨c, hc, hr⟩
  simp only [references, List.mem_append, hconstants, true_or, or_true]

theorem mem_references_of_instruction {i : Instruction} (hi : i ∈ p.instructions.toList) {r : Reference}
    (hr : r ∈ i.references) : r ∈ p.references := by
  have hinstructions : r ∈ p.instructions.toList.flatMap Instruction.references := List.mem_flatMap.mpr ⟨i, hi, hr⟩
  simp only [references, List.mem_append, hinstructions, true_or, or_true]

theorem mem_references_of_listed {i : InstId} (hi : i ∈ p.listing) : .listed i ∈ p.references := by
  have hlisted : Reference.listed i ∈ p.listing.map .listed := List.mem_map_of_mem hi
  simp only [references, List.mem_append, hlisted, or_true]

end Program

section Traversal

variable {ε α β : Type} {f : β → Except ε Unit}

theorem forM_flatMap (as : List α) (parts : α → List β) :
    (as.flatMap parts).forM f = as.forM fun a => (parts a).forM f := by
  induction as with
  | nil => rfl
  | cons a rest ih =>
    calc ((a :: rest).flatMap parts).forM f
      _ = (parts a).forM f >>= fun _ => (rest.flatMap parts).forM f := List.forM_append
      _ = (parts a).forM f >>= fun _ => rest.forM fun a => (parts a).forM f := by rw [ih]

/-- A traversal fails at the first element that fails. -/
theorem forM_eq_error_iff {as : List β} {e : ε} :
    as.forM f = .error e ↔ ∃ before a after, as = before ++ a :: after ∧
      (∀ b ∈ before, f b = .ok ()) ∧ f a = .error e := by
  constructor
  · intro h
    induction as with
    | nil => cases h
    | cons a rest ih =>
      change (f a >>= fun _ => rest.forM f) = .error e at h
      cases ha : f a with
      | error d =>
        rw [ha] at h
        exact ⟨[], a, rest, rfl, by simp, ha.trans h⟩
      | ok u =>
        rw [ha] at h
        obtain ⟨before, b, after, rfl, passed, failed⟩ := ih h
        exact ⟨a :: before, b, after, rfl, List.forall_mem_cons.mpr ⟨ha, passed⟩, failed⟩
  · rintro ⟨before, a, after, rfl, passed, failed⟩
    calc (before ++ a :: after).forM f
      _ = before.forM f >>= fun _ => f a >>= fun _ => after.forM f := List.forM_append
      _ = .error e := by rw [forM_eq_ok_iff.mpr passed, failed]; rfl

end Traversal

namespace Program

variable (p : Program)

theorem checkTypeDef_eq_forM (d : TypeDef) :
    p.checkTypeDef d = (d.parts.map Reference.type).forM (Reference.check p) := by
  cases d with
  | pointer pointee =>
    cases pointee with
    | none => rfl
    | some t => exact (bind_pure (p.checkType t)).symm
  | array t length => exact (bind_pure (p.checkType t)).symm
  | vector t length => exact (bind_pure (p.checkType t)).symm
  | struct name fields =>
    have hfields : (fields.map Reference.type).forM (Reference.check p) = fields.forM p.checkType :=
      List.forM_map
    exact hfields.symm
  | _ => rfl

theorem checkConstant_eq_forM (c : ConstGep) :
    p.checkConstant c = c.references.forM (Reference.check p) := by
  have hindices : (c.indices.map Reference.operand).forM (Reference.check p) =
      c.indices.forM p.checkValue := List.forM_map
  unfold checkConstant
  rw [← hindices]
  rfl

/-- The check of an instruction goes through its references in the order of `Instruction.references`. -/
theorem checkInstruction_eq_forM (i : Instruction) :
    p.checkInstruction i = i.references.forM (Reference.check p) := by
  have hoperands : (i.operands.map Reference.operand).forM (Reference.check p) =
      i.operands.forM p.checkValue := List.forM_map
  unfold checkInstruction
  rw [← hoperands, i.references_eq]
  cases i with
  | call callee args => cases callee <;> rfl
  | _ => rfl

/-- The five loops of the check are one loop over all references. -/
theorem validate_eq_forM : p.validate = p.references.forM (Reference.check p) := by
  have htypes : (p.types.toList.flatMap fun d => d.parts.map Reference.type).forM (Reference.check p) =
      p.types.toList.forM p.checkTypeDef := by
    simp only [forM_flatMap, ← checkTypeDef_eq_forM]
  have hglobals : (p.globals.toList.map fun g => Reference.type g.valueType).forM (Reference.check p) =
      p.globals.toList.forM fun g => p.checkType g.valueType := List.forM_map
  have hconstants : (p.constants.toList.flatMap ConstGep.references).forM (Reference.check p) =
      p.constants.toList.forM p.checkConstant := by
    simp only [forM_flatMap, ← checkConstant_eq_forM]
  have hinstructions : (p.instructions.toList.flatMap Instruction.references).forM (Reference.check p) =
      p.instructions.toList.forM p.checkInstruction := by
    simp only [forM_flatMap, ← checkInstruction_eq_forM]
  have hlisting : (p.listing.map Reference.listed).forM (Reference.check p) =
      p.functions.toList.forM fun f => f.blocks.forM fun b => b.insts.forM p.checkListed := by
    calc (p.listing.map Reference.listed).forM (Reference.check p)
      _ = p.listing.forM p.checkListed := List.forM_map
      _ = _ := by simp only [listing, Function.listing, forM_flatMap]
  unfold validate references
  rw [← htypes, ← hglobals, ← hconstants, ← hinstructions, ← hlisting]
  simp only [List.forM_eq_forM, List.forM_append, bind_assoc]

end Program

/-- The reference check accepts exactly the programs whose references all resolve, and otherwise reports the first
reference, in the order of the check, that names nothing. -/
theorem Program.validate_exact (p : Program) :
    (p.validate = .ok () ↔ p.Closed) ∧
    ∀ d, p.validate = .error d ↔ ∃ before r after, p.references = before ++ r :: after ∧
      (∀ q ∈ before, ∀ e, ¬q.Missing p e) ∧ r.Missing p d := by
  refine ⟨validate_eq_ok_iff_closed, fun d => ?_⟩
  rw [validate_eq_forM, forM_eq_error_iff]
  simp only [Reference.check_eq_ok_iff, Reference.check_eq_error_iff]

/-- A call by an address that no instruction computes. -/
def strayTarget (args : List Value) : Program where
  functions := #[{ name := "main", params := 1, blocks := [{ insts := [⟨0⟩] }] }]
  instructions := #[.call (.indirect (.inst ⟨7⟩)) args]

/-- The target is looked at after the arguments, and it is enough to refuse a program whose arguments all exist. -/
theorem Program.validate_exact_strayTarget :
    let p := strayTarget [.argument ⟨0⟩ 0, .constInt 3]
    p.references = [.operand (.argument ⟨0⟩ 0), .operand (.constInt 3), .operand (.inst ⟨7⟩), .listed ⟨0⟩] ∧
    p.validate = .error ⟨.instruction, 7⟩ ∧ ¬p.Closed ∧
    (strayTarget [.argument ⟨0⟩ 1]).validate = .error ⟨.argument, 1⟩ := by
  intro p
  have stray : p.validate = .error ⟨.instruction, 7⟩ := by
    refine (p.validate_exact.2 _).mpr
      ⟨[.operand (.argument ⟨0⟩ 0), .operand (.constInt 3)], .operand (.inst ⟨7⟩), [.listed ⟨0⟩], rfl, ?_, .inst (by decide)⟩
    intro r hr d missing
    rcases List.mem_cons.mp hr with rfl | hr
    · cases missing with
      | function outside => exact absurd outside (by decide)
      | argument found beyond =>
        cases found
        exact absurd beyond (by decide)
    · obtain rfl := List.mem_singleton.mp hr
      cases missing
  have beyond : (strayTarget [.argument ⟨0⟩ 1]).validate = .error ⟨.argument, 1⟩ :=
    ((validate_exact _).2 _).mpr ⟨[], .operand (.argument ⟨0⟩ 1), [.operand (.inst ⟨7⟩), .listed ⟨0⟩], rfl, by simp,
      .argument rfl (by decide)⟩
  refine ⟨rfl, stray, fun closed => ?_, beyond⟩
  cases stray.symm.trans (p.validate_exact.1.mpr closed)

end HotFields
