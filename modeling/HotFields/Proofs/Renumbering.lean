import HotFields.Proofs.FirstDangling
import Mathlib.Data.List.Forall2
import Mathlib.Logic.Equiv.Fin.Basic

namespace HotFields

/-- An id and the id of the same object after its arena was permuted. -/
def Moves {m n : Nat} (places : Fin m ≃ Fin n) (a b : UInt32) : Prop :=
  ∃ h : a.toNat < m, (places ⟨a.toNat, h⟩).val = b.toNat

theorem Moves.biUnique {m n : Nat} (places : Fin m ≃ Fin n) {ι : Type} (index : ι → UInt32)
    (inj : Function.Injective index) :
    Relator.BiUnique fun a b => Moves places (index a) (index b) := by
  constructor
  · rintro a b c ⟨ha, hac⟩ ⟨hb, hbc⟩
    have hplace : places ⟨(index a).toNat, ha⟩ = places ⟨(index b).toNat, hb⟩ :=
      Fin.ext (hac.trans hbc.symm)
    have hnat : (index a).toNat = (index b).toNat := Fin.mk.inj (places.injective hplace)
    exact inj (UInt32.toNat_inj.mp hnat)
  · rintro a b c ⟨_, hab⟩ ⟨_, hac⟩
    exact inj (UInt32.toNat_inj.mp (hab.symm.trans hac))

/-- Corresponding ids name corresponding objects. -/
theorem Moves.getElem? {α : Type} {R : α → α → Prop} {xs ys : Array α}
    {places : Fin xs.size ≃ Fin ys.size} (same : ∀ k, R xs[k] ys[places k]) {a b : UInt32}
    (h : Moves places a b) :
    ∃ x y, xs[a.toNat]? = some x ∧ ys[b.toNat]? = some y ∧ R x y := by
  obtain ⟨ha, hb⟩ := h
  refine ⟨xs[a.toNat], ys[places ⟨a.toNat, ha⟩], by simp [ha], ?_, same ⟨a.toNat, ha⟩⟩
  rw [← hb]
  simp

/-- Where the objects of a program stand in another one. Functions stay in their places. -/
structure Places (p q : Program) where
  types : Fin p.types.size ≃ Fin q.types.size
  globals : Fin p.globals.size ≃ Fin q.globals.size
  instructions : Fin p.instructions.size ≃ Fin q.instructions.size
  constants : Fin p.constants.size ≃ Fin q.constants.size

namespace Places

variable {p q : Program} (places : Places p q)

def SameType (t u : TypeId) : Prop := Moves places.types t.index u.index

def SameInst (i j : InstId) : Prop := Moves places.instructions i.index j.index

inductive SameValue : Value → Value → Prop
  | constInt (n : UInt64) : SameValue (.constInt n) (.constInt n)
  | global {g h : GlobalId} : Moves places.globals g.index h.index → SameValue (.global g) (.global h)
  | argument (f : FunctionId) (k : UInt32) : SameValue (.argument f k) (.argument f k)
  | inst {i j : InstId} : places.SameInst i j → SameValue (.inst i) (.inst j)
  | const {c d : ConstId} : Moves places.constants c.index d.index → SameValue (.const c) (.const d)

inductive SameTypeDef : TypeDef → TypeDef → Prop
  | void : SameTypeDef .void .void
  | int (bits : UInt32) : SameTypeDef (.int bits) (.int bits)
  | float (bits : UInt32) : SameTypeDef (.float bits) (.float bits)
  | pointer {t u : Option TypeId} :
    Option.Rel places.SameType t u → SameTypeDef (.pointer t) (.pointer u)
  | array {t u : TypeId} (length : UInt64) :
    places.SameType t u → SameTypeDef (.array t length) (.array u length)
  | vector {t u : TypeId} (length : UInt32) :
    places.SameType t u → SameTypeDef (.vector t length) (.vector u length)
  | struct {ts us : List TypeId} (name : Option String) :
    List.Forall₂ places.SameType ts us → SameTypeDef (.struct name ts) (.struct name us)

inductive SameCallee : Callee → Callee → Prop
  | direct (f : FunctionId) : SameCallee (.direct f) (.direct f)
  | indirect {v w : Value} : places.SameValue v w → SameCallee (.indirect v) (.indirect w)

inductive SameInstruction : Instruction → Instruction → Prop
  | gep {t u : TypeId} {v w : Value} {vs ws : List Value} : places.SameType t u →
    places.SameValue v w → List.Forall₂ places.SameValue vs ws →
    SameInstruction (.gep t v vs) (.gep u w ws)
  | load {t u : TypeId} {v w : Value} : places.SameType t u → places.SameValue v w →
    SameInstruction (.load t v) (.load u w)
  | store {v w v' w' : Value} : places.SameValue v w → places.SameValue v' w' →
    SameInstruction (.store v v') (.store w w')
  | call {c d : Callee} {vs ws : List Value} : places.SameCallee c d →
    List.Forall₂ places.SameValue vs ws → SameInstruction (.call c vs) (.call d ws)
  | other {vs ws : List Value} (opcode : String) : List.Forall₂ places.SameValue vs ws →
    SameInstruction (.other opcode vs) (.other opcode ws)

structure SameGlobal (g h : Global) : Prop where
  name : g.name = h.name
  valueType : places.SameType g.valueType h.valueType
  initializer : g.initializer = h.initializer

structure SameConstant (c d : ConstGep) : Prop where
  sourceType : places.SameType c.sourceType d.sourceType
  base : places.SameValue c.base d.base
  indices : List.Forall₂ places.SameValue c.indices d.indices

structure SameBlock (b c : Block) : Prop where
  label : b.label = c.label
  insts : List.Forall₂ places.SameInst b.insts c.insts

structure SameFunction (f g : Function) : Prop where
  name : f.name = g.name
  params : f.params = g.params
  blocks : List.Forall₂ places.SameBlock f.blocks g.blocks

end Places

/-- A program whose objects stand at other places in another one, with every reference renamed. -/
structure Renumbering (p q : Program) extends places : Places p q where
  sameTypes : ∀ k, places.SameTypeDef p.types[k] q.types[types k]
  sameGlobals : ∀ k, places.SameGlobal p.globals[k] q.globals[globals k]
  sameInstructions : ∀ k, places.SameInstruction p.instructions[k] q.instructions[instructions k]
  sameConstants : ∀ k, places.SameConstant p.constants[k] q.constants[constants k]
  sameFunctions : List.Forall₂ places.SameFunction p.functions.toList q.functions.toList

/-- Permutations of the arenas of a program. -/
structure Shuffle (p : Program) where
  types : Equiv.Perm (Fin p.types.size)
  globals : Equiv.Perm (Fin p.globals.size)
  instructions : Equiv.Perm (Fin p.instructions.size)
  constants : Equiv.Perm (Fin p.constants.size)

/-- The id of an object after a permutation of its arena. An id that names nothing stays. -/
def moved {n : Nat} (σ : Equiv.Perm (Fin n)) (a : UInt32) : UInt32 :=
  if h : a.toNat < n then (σ ⟨a.toNat, h⟩).val.toUInt32 else a

namespace Shuffle

variable {p : Program} (σ : Shuffle p)

def type (t : TypeId) : TypeId := ⟨moved σ.types t.index⟩

def inst (i : InstId) : InstId := ⟨moved σ.instructions i.index⟩

def value : Value → Value
  | .constInt n => .constInt n
  | .global g => .global ⟨moved σ.globals g.index⟩
  | .argument f k => .argument f k
  | .inst i => .inst (σ.inst i)
  | .const c => .const ⟨moved σ.constants c.index⟩

def typeDef : TypeDef → TypeDef
  | .void => .void
  | .int bits => .int bits
  | .float bits => .float bits
  | .pointer t => .pointer (t.map σ.type)
  | .array t length => .array (σ.type t) length
  | .vector t length => .vector (σ.type t) length
  | .struct name fields => .struct name (fields.map σ.type)

def callee : Callee → Callee
  | .direct f => .direct f
  | .indirect v => .indirect (σ.value v)

def instruction : Instruction → Instruction
  | .gep t base indices => .gep (σ.type t) (σ.value base) (indices.map σ.value)
  | .load t address => .load (σ.type t) (σ.value address)
  | .store v address => .store (σ.value v) (σ.value address)
  | .call c args => .call (σ.callee c) (args.map σ.value)
  | .other opcode operands => .other opcode (operands.map σ.value)

def global (g : Global) : Global := { g with valueType := σ.type g.valueType }

def constant (c : ConstGep) : ConstGep :=
  { sourceType := σ.type c.sourceType, base := σ.value c.base, indices := c.indices.map σ.value }

def block (b : Block) : Block := { b with insts := b.insts.map σ.inst }

def function (f : Function) : Function := { f with blocks := f.blocks.map σ.block }

end Shuffle

/-- An arena with changed objects at permuted places. -/
def permuted {α : Type} (xs : Array α) (σ : Equiv.Perm (Fin xs.size)) (change : α → α) : Array α :=
  Array.ofFn fun k => change xs[σ.symm k]

theorem size_permuted {α : Type} (xs : Array α) (σ : Equiv.Perm (Fin xs.size)) (change : α → α) :
    xs.size = (permuted xs σ change).size :=
  Array.size_ofFn.symm

theorem getElem_permuted {α : Type} (xs : Array α) (σ : Equiv.Perm (Fin xs.size)) (change : α → α)
    (k : Fin xs.size) :
    (permuted xs σ change)[σ.trans (finCongr (size_permuted xs σ change)) k] = change xs[k] := by
  have hback := congrArg (fun j : Fin xs.size => change xs[j]) (σ.symm_apply_apply k)
  exact (Array.getElem_ofFn _).trans hback

/-- The program with permuted arenas and every reference renamed. -/
def Program.shuffle (p : Program) (σ : Shuffle p) : Program where
  types := permuted p.types σ.types σ.typeDef
  globals := permuted p.globals σ.globals σ.global
  functions := p.functions.map σ.function
  instructions := permuted p.instructions σ.instructions σ.instruction
  constants := permuted p.constants σ.constants σ.constant

/-- The object of a reference still has an id after the permutations. -/
def Shuffle.KeepsId {p : Program} (σ : Shuffle p) : Reference → Prop
  | .type t => ∀ h : t.index.toNat < p.types.size, (σ.types ⟨t.index.toNat, h⟩).val < UInt32.size
  | .operand (.global g) => ∀ h : g.index.toNat < p.globals.size, (σ.globals ⟨g.index.toNat, h⟩).val < UInt32.size
  | .operand (.inst i) | .listed i =>
    ∀ h : i.index.toNat < p.instructions.size, (σ.instructions ⟨i.index.toNat, h⟩).val < UInt32.size
  | .operand (.const c) => ∀ h : c.index.toNat < p.constants.size, (σ.constants ⟨c.index.toNat, h⟩).val < UInt32.size
  | .callee _ | .operand (.constInt _) | .operand (.argument ..) => True

/-- Every object that is referred to still has an id. Objects that nothing refers to may go anywhere. -/
def Shuffle.KeepsIds {p : Program} (σ : Shuffle p) : Prop :=
  ∀ r ∈ p.references, σ.KeepsId r

/-- In arenas that ids can name as a whole, all permutations keep the ids. -/
theorem Shuffle.keepsIds_of_addressable {p : Program} (all : p.Addressable) (σ : Shuffle p) : σ.KeepsIds := by
  have fits : ∀ {n : Nat}, n ≤ UInt32.size → ∀ k : Fin n, k.val < UInt32.size :=
    fun hn k => Nat.lt_of_lt_of_le k.isLt hn
  intro r _
  cases r with
  | type t => exact fun _ => fits all.types _
  | callee f => trivial
  | operand v =>
    cases v with
    | constInt n => trivial
    | global g => exact fun _ => fits all.globals _
    | argument f k => trivial
    | inst i => exact fun _ => fits all.instructions _
    | const c => exact fun _ => fits all.constants _
  | listed i => exact fun _ => fits all.instructions _

theorem moves_moved {m n : Nat} (σ : Equiv.Perm (Fin m)) (size : m = n) {a : UInt32} (ha : a.toNat < m)
    (id : (σ ⟨a.toNat, ha⟩).val < UInt32.size) : Moves (σ.trans (finCongr size)) a (moved σ a) := by
  refine ⟨ha, ?_⟩
  rw [moved, dif_pos ha]
  exact (UInt32.toNat_ofNat_of_lt' id).symm

namespace Shuffle

variable {p : Program} (σ : Shuffle p)

def places : Places p (p.shuffle σ) where
  types := σ.types.trans (finCongr (size_permuted _ _ _))
  globals := σ.globals.trans (finCongr (size_permuted _ _ _))
  instructions := σ.instructions.trans (finCongr (size_permuted _ _ _))
  constants := σ.constants.trans (finCongr (size_permuted _ _ _))

theorem forall₂_map {α β : Type} {R : α → β → Prop} {f : α → β} {xs : List α}
    (h : ∀ x ∈ xs, R x (f x)) : List.Forall₂ R xs (xs.map f) :=
  List.forall₂_map_right_iff.mpr (List.forall₂_same.mpr h)

theorem sameType {t : TypeId} (h : t.index.toNat < p.types.size) (id : σ.KeepsId (.type t)) :
    σ.places.SameType t (σ.type t) :=
  moves_moved σ.types _ h (id h)

theorem sameInst {i : InstId} (h : i.index.toNat < p.instructions.size) (id : σ.KeepsId (.listed i)) :
    σ.places.SameInst i (σ.inst i) :=
  moves_moved σ.instructions _ h (id h)

theorem sameValue {v : Value} (h : p.Resolves v) (id : σ.KeepsId (.operand v)) :
    σ.places.SameValue v (σ.value v) := by
  cases v with
  | constInt n => exact .constInt n
  | global g => exact .global (moves_moved σ.globals _ h (id h))
  | argument f k => exact .argument f k
  | inst i => exact .inst (σ.sameInst h id)
  | const c => exact .const (moves_moved σ.constants _ h (id h))

theorem sameTypeDef {d : TypeDef} (h : ∀ t ∈ d.parts, t.index.toNat < p.types.size)
    (ids : ∀ t ∈ d.parts, σ.KeepsId (.type t)) : σ.places.SameTypeDef d (σ.typeDef d) := by
  have same : ∀ {t}, t ∈ d.parts → σ.places.SameType t (σ.type t) := fun ht => σ.sameType (h _ ht) (ids _ ht)
  cases d with
  | void => exact .void
  | int bits => exact .int bits
  | float bits => exact .float bits
  | pointer t =>
    cases t with
    | none => exact .pointer Option.Rel.none
    | some t => exact .pointer (Option.Rel.some (same (by simp [TypeDef.parts])))
  | array t length => exact .array length (same (by simp [TypeDef.parts]))
  | vector t length => exact .vector length (same (by simp [TypeDef.parts]))
  | struct name fields => exact .struct name (forall₂_map fun t ht => same ht)

/-- Only the objects that an instruction mentions need an id at their new place. -/
theorem sameInstruction {x : Instruction} (htype : ∀ t ∈ x.type?, t.index.toNat < p.types.size)
    (hvalue : ∀ v, x.Has v → p.Resolves v) (ids : ∀ r ∈ x.references, σ.KeepsId r) :
    σ.places.SameInstruction x (σ.instruction x) := by
  rw [x.references_eq] at ids
  have type : ∀ {t}, t ∈ x.type? → σ.places.SameType t (σ.type t) := by
    intro t ht
    exact σ.sameType (htype t ht) (ids _ (by simp [Option.mem_def.mp ht]))
  have same : ∀ {v}, x.Has v → σ.places.SameValue v (σ.value v) := by
    intro v hv
    exact σ.sameValue (hvalue v hv) (ids _ (by simp [Instruction.has_iff_mem_operands.mp hv]))
  cases x with
  | gep t base indices =>
    exact .gep (type rfl) (same (.gepBase t indices)) (forall₂_map fun v hv => same (.gepIndex t base hv))
  | load t address => exact .load (type rfl) (same (.loadAddress t))
  | store v address => exact .store (same (.storeValue address)) (same (.storeAddress v))
  | call c args =>
    have hargs := forall₂_map fun v hv => same (.callArgument c hv)
    cases c with
    | direct f => exact .call (.direct f) hargs
    | indirect target => exact .call (.indirect (same (.callTarget args))) hargs
  | other opcode operands => exact .other opcode (forall₂_map fun v hv => same (.otherOperand opcode hv))

theorem sameConstant {c : ConstGep} (htype : c.sourceType.index.toNat < p.types.size) (hbase : p.Resolves c.base)
    (hindices : ∀ v ∈ c.indices, p.Resolves v) (ids : ∀ r ∈ c.references, σ.KeepsId r) :
    σ.places.SameConstant c (σ.constant c) where
  sourceType := σ.sameType htype (ids _ (by simp [ConstGep.references]))
  base := σ.sameValue hbase (ids _ (by simp [ConstGep.references]))
  indices := forall₂_map fun v hv => σ.sameValue (hindices v hv) (ids _ (by simp [ConstGep.references, hv]))

theorem sameFunction {f : Function} (h : ∀ i ∈ f.listing, i.index.toNat < p.instructions.size)
    (ids : ∀ i ∈ f.listing, σ.KeepsId (.listed i)) : σ.places.SameFunction f (σ.function f) := by
  refine ⟨rfl, rfl, forall₂_map fun b hb => ⟨rfl, forall₂_map fun i hi => ?_⟩⟩
  have hlisted : i ∈ f.listing := List.mem_flatMap.mpr ⟨b, hb, hi⟩
  exact σ.sameInst (h i hlisted) (ids i hlisted)

/-- A program that passes the reference check is renumbered by any permutations of its arenas that keep ids. -/
def renumbering (ids : σ.KeepsIds) (valid : p.validate = .ok ()) : Renumbering p (p.shuffle σ) where
  places := σ.places
  sameTypes k := by
    have hk : p.types[k] ∈ p.types.toList := by simp
    have closed := (Program.validate_eq_ok_iff_closed.mp valid).types p.types[k] hk
    exact (getElem_permuted p.types σ.types σ.typeDef k).symm ▸
      σ.sameTypeDef closed fun t ht => ids _ (Program.mem_references_of_type hk ht)
  sameGlobals k := by
    have hk : p.globals[k] ∈ p.globals.toList := by simp
    have closed := (Program.validate_eq_ok_iff_closed.mp valid).globals p.globals[k] hk
    exact (getElem_permuted p.globals σ.globals σ.global k).symm ▸
      ⟨rfl, σ.sameType closed (ids _ (Program.mem_references_of_global hk)), rfl⟩
  sameInstructions k := by
    have hk : p.instructions[k] ∈ p.instructions.toList := by simp
    obtain ⟨htype, _, hvalue⟩ := (Program.validate_eq_ok_iff_closed.mp valid).instructions p.instructions[k] hk
    exact (getElem_permuted p.instructions σ.instructions σ.instruction k).symm ▸
      σ.sameInstruction htype hvalue fun r hr => ids r (Program.mem_references_of_instruction hk hr)
  sameConstants k := by
    have hk : p.constants[k] ∈ p.constants.toList := by simp
    obtain ⟨htype, hbase, hindices⟩ := (Program.validate_eq_ok_iff_closed.mp valid).constants p.constants[k] hk
    exact (getElem_permuted p.constants σ.constants σ.constant k).symm ▸
      σ.sameConstant htype hbase hindices fun r hr => ids r (Program.mem_references_of_constant hk hr)
  sameFunctions := by
    have closed := (Program.validate_eq_ok_iff_closed.mp valid).listing
    simp only [Program.shuffle, Array.toList_map]
    refine forall₂_map fun f hf => ?_
    have hlisted : ∀ i ∈ f.listing, i ∈ p.listing := fun i hi => List.mem_flatMap.mpr ⟨f, hf, hi⟩
    exact σ.sameFunction (fun i hi => closed i (hlisted i hi))
      fun i hi => ids _ (Program.mem_references_of_listed (hlisted i hi))

end Shuffle

end HotFields
