import HotFields.Proofs.ChainAccesses
import HotFields.Proofs.TableCounts
import Mathlib.Algebra.BigOperators.Intervals

namespace HotFields

/-- The type that an index leads to from a type: the pointee, the element, or the field with that index. -/
def Program.inner (p : Program) (t : TypeId) (index : UInt64) : Option TypeId :=
  match p.type? t with
  | some (.pointer pointee) => pointee
  | some (.array element _) => some element
  | some (.vector element _) => some element
  | some (.struct _ fields) => fields[index.toNat]?
  | _ => none

/-- The cursor moves by the kind of a type, the inner type is read off its definition. -/
theorem Program.advance_eq_inner (p : Program) (t : TypeId) (index : UInt64) :
    p.advance t index = p.inner t index := by
  unfold advance inner typeKind elementType fieldType
  cases p.type? t with
  | none => rfl
  | some d => cases d <;> rfl

namespace Chain

/-- The type that the index at a position applies to. The index at position 0 steps over the base pointer,
so the source type is that of position 1. No position has a type after an index that is not constant or
that leads nowhere. -/
def typeAt (p : Program) (chain : Chain) : Nat → Option TypeId
  | 0 => none
  | 1 => some chain.sourceType
  | k + 2 => do
    let t ← chain.typeAt p (k + 1)
    let index ← p.constantIndex (← chain.indices[k + 1]?)
    p.inner t index

/-- The accesses by the index at one position. -/
def accessesAt (p : Program) (attributeGlobals : Bool) (origin : Origin) (chain : Chain) (k : Nat) :
    List Access :=
  match chain.typeAt p k, chain.indices[k]? with
  | some t, some operand =>
    match p.constantIndex operand with
    | some index => stepAccesses p attributeGlobals origin t operand index
    | none => []
  | _, _ => []

/-- Positions from `k + 1` on account for the accesses of the operands that are left there. -/
theorem accessesFrom_eq_flatMap (p : Program) (attributeGlobals : Bool) (origin : Origin)
    (chain : Chain) (operands : List Value) (k : Nat)
    (hdrop : chain.indices.drop (k + 1) = operands) :
    accessesFrom p attributeGlobals origin (chain.typeAt p (k + 1)) operands =
      (List.range' (k + 1) operands.length).flatMap (chain.accessesAt p attributeGlobals origin) := by
  induction operands generalizing k with
  | nil => cases chain.typeAt p (k + 1) <;> rfl
  | cons operand rest ih =>
    have hx : chain.indices[k + 1]? = some operand := by
      have hh : (chain.indices.drop (k + 1))[0]? = some operand := by rw [hdrop]; rfl
      simpa using hh
    have hrest : chain.indices.drop (k + 2) = rest := by
      have hh : (chain.indices.drop (k + 1)).drop 1 = rest := by rw [hdrop]; rfl
      simpa using hh
    have hnext : chain.typeAt p (k + 2) = (chain.typeAt p (k + 1)).bind fun t =>
        (p.constantIndex operand).bind fun index => p.inner t index := by
      rw [typeAt, hx]
      rfl
    rw [List.length_cons, List.range'_succ, List.flatMap_cons, ← ih (k + 1) hrest, hnext]
    cases ht : chain.typeAt p (k + 1) with
    | none => simp [accessesAt, ht]
    | some t =>
      cases hi : p.constantIndex operand with
      | none => simp [accessesAt, accessesFrom, ht, hx, hi]
      | some index =>
        simp only [accessesAt, accessesFrom, ht, hx, hi, Option.bind_some, p.advance_eq_inner]

theorem events_eq_flatMap (p : Program) (attributeGlobals : Bool) (origin : Origin) (chain : Chain) :
    chain.events p attributeGlobals origin =
      (List.range' 1 (chain.indices.length - 1)).flatMap (chain.accessesAt p attributeGlobals origin) := by
  rw [events_eq_accessesFrom, ← List.drop_one, ← List.length_drop]
  exact accessesFrom_eq_flatMap p attributeGlobals origin chain _ 0 rfl

/-- The accesses to a field of a structure by the index at one position: one if the index has this value and
applies to the structure, and one more if it names a global of the structure's type. -/
def hitsAt (p : Program) (attributeGlobals : Bool) (chain : Chain) (owner : String) (field : UInt64)
    (k : Nat) : Nat :=
  match chain.typeAt p k, chain.indices[k]? with
  | some t, some operand =>
    if p.constantIndex operand = some field then
      (if p.structName t = some owner then 1 else 0) +
        (if attributeGlobals ∧ (p.globalType operand).bind p.structName = some owner then 1 else 0)
    else 0
  | _, _ => 0

/-- The accesses of a chain to a field of a structure. -/
def hits (p : Program) (attributeGlobals : Bool) (chain : Chain) (owner : String) (field : UInt64) :
    Nat :=
  ∑ k ∈ Finset.Ico 1 chain.indices.length, chain.hitsAt p attributeGlobals owner field k

theorem occurrences_owner (owner : Option String) (name : String) (index field : UInt64)
    (origin : Origin) :
    Table.occurrences (owner.toList.map fun owner => ⟨owner, index, origin⟩) name field =
      if index = field ∧ owner = some name then 1 else 0 := by
  cases owner with
  | none => simp [Table.occurrences]
  | some owner => simp [Table.occurrences, List.countP_cons, and_comm]

/-- A position can hit a field twice: by the type there and by the global that stands as its index. -/
theorem occurrences_accessesAt (p : Program) (attributeGlobals : Bool) (origin : Origin)
    (chain : Chain) (owner : String) (field : UInt64) (k : Nat) :
    Table.occurrences (chain.accessesAt p attributeGlobals origin k) owner field =
      chain.hitsAt p attributeGlobals owner field k := by
  unfold accessesAt hitsAt
  cases chain.typeAt p k with
  | none => rfl
  | some t =>
    cases chain.indices[k]? with
    | none => rfl
    | some operand =>
      cases hi : p.constantIndex operand with
      | none => simp [hi, Table.occurrences]
      | some index =>
        simp only [hi, stepAccesses, Table.occurrences_append, occurrences_owner, Option.some.injEq]
        by_cases hf : index = field
        · cases attributeGlobals <;> simp [hf, globalOwner]
        · simp [hf]

/-- The hits of a chain are those of its positions, added up. -/
theorem occurrences_events (p : Program) (attributeGlobals : Bool) (origin : Origin) (chain : Chain)
    (owner : String) (field : UInt64) :
    Table.occurrences (chain.events p attributeGlobals origin) owner field =
      chain.hits p attributeGlobals owner field := by
  rw [events_eq_flatMap, Table.occurrences, List.countP_flatMap]
  have hpositions : (List.range' 1 (chain.indices.length - 1)).map (fun k =>
      Table.occurrences (chain.accessesAt p attributeGlobals origin k) owner field) =
      (List.range' 1 (chain.indices.length - 1)).map (chain.hitsAt p attributeGlobals owner field) :=
    List.map_congr_left fun k _ => occurrences_accessesAt p attributeGlobals origin chain owner field k
  exact congrArg List.sum hpositions

end Chain

end HotFields
