import HotFields.Analysis.Resolve

namespace HotFields

/-- Records accesses one after another. -/
def AccessSink.recordAll {σ : Type} [AccessSink σ] (sink : σ) (accesses : List Access) : σ :=
  accesses.foldl AccessSink.record sink

section RecordAll

variable {σ : Type} [AccessSink σ]

@[simp] theorem recordAll_nil (sink : σ) : AccessSink.recordAll sink [] = sink := rfl

theorem recordAll_append (sink : σ) (xs ys : List Access) :
    AccessSink.recordAll sink (xs ++ ys) =
      AccessSink.recordAll (AccessSink.recordAll sink xs) ys :=
  List.foldl_append

theorem recordAll_list (kept accesses : List Access) :
    AccessSink.recordAll kept accesses = kept ++ accesses := by
  induction accesses generalizing kept with
  | nil => simp
  | cons a rest ih =>
    have hh := ih (kept ++ [a])
    simpa [AccessSink.recordAll, AccessSink.record] using hh

end RecordAll

namespace Chain

/-- The accesses of one index operand: to the structure that it indexes, and to the structure of the
global that it names. -/
def stepAccesses (p : Program) (attributeGlobals : Bool) (origin : Origin) (t : TypeId)
    (operand : Value) (index : UInt64) : List Access :=
  (p.structName t).toList.map (fun owner => ⟨owner, index, origin⟩) ++
    (globalOwner p attributeGlobals operand).toList.map (fun owner => ⟨owner, index, origin⟩)

/-- The accesses of index operands from a cursor. -/
def accessesFrom (p : Program) (attributeGlobals : Bool) (origin : Origin) :
    Option TypeId → List Value → List Access
  | _, [] => []
  | none, _ :: _ => []
  | some t, operand :: rest =>
    match p.constantIndex operand with
    | none => []
    | some index =>
      stepAccesses p attributeGlobals origin t operand index ++
        accessesFrom p attributeGlobals origin (p.advance t index) rest

@[simp] theorem accessesFrom_none (p : Program) (attributeGlobals : Bool) (origin : Origin)
    (operands : List Value) : accessesFrom p attributeGlobals origin none operands = [] := by
  cases operands <;> rfl

section Sink

variable {σ : Type} [AccessSink σ]

theorem credit_sink (r : Resolution σ) (owner : Option String) (field : UInt64) (origin : Origin) :
    (r.credit owner field origin).sink =
      AccessSink.recordAll r.sink (owner.toList.map fun owner => ⟨owner, field, origin⟩) := by
  cases owner <;> rfl

theorem credit_produced (r : Resolution σ) (owner : Option String) (field : UInt64)
    (origin : Origin) : (r.credit owner field origin).produced = r.produced + owner.toList.length := by
  cases owner <;> rfl

/-- By induction on the operands, for any sink and any count to begin with. -/
theorem follow_spec (p : Program) (attributeGlobals : Bool) (origin : Origin)
    (cursor : Option TypeId) (operands : List Value) (r : Resolution σ) :
    (follow p attributeGlobals origin cursor operands r).sink =
        AccessSink.recordAll r.sink (accessesFrom p attributeGlobals origin cursor operands) ∧
      (follow p attributeGlobals origin cursor operands r).produced =
        r.produced + (accessesFrom p attributeGlobals origin cursor operands).length := by
  induction operands generalizing cursor r with
  | nil => cases cursor <;> exact ⟨rfl, rfl⟩
  | cons operand rest ih =>
    cases cursor with
    | none => exact ⟨rfl, rfl⟩
    | some t =>
      cases hi : p.constantIndex operand with
      | none => simp [follow, accessesFrom, hi, Resolution.note]
      | some index =>
        obtain ⟨hs, hp⟩ := ih (p.advance t index)
          ((r.credit (p.structName t) index origin).credit
            (globalOwner p attributeGlobals operand) index origin)
        simp only [follow, accessesFrom, hi]
        rw [hs, hp, credit_sink, credit_sink, credit_produced, credit_produced]
        constructor
        · simp only [stepAccesses, recordAll_append]
        · simp only [stepAccesses, List.length_append, List.length_map]
          omega

end Sink

/-- The accesses of a chain, with no sink in between. -/
theorem events_eq_accessesFrom (p : Program) (attributeGlobals : Bool) (origin : Origin)
    (chain : Chain) :
    chain.events p attributeGlobals origin =
      accessesFrom p attributeGlobals origin (some chain.sourceType) chain.indices.tail := by
  have hlist := (follow_spec p attributeGlobals origin (some chain.sourceType) chain.indices.tail
    { sink := ([] : List Access) }).1
  rw [recordAll_list, List.nil_append] at hlist
  exact hlist

/-- A sink sees the accesses of a chain and nothing else of it. -/
theorem resolve_sink {σ : Type} [AccessSink σ] (p : Program) (attributeGlobals : Bool)
    (origin : Origin) (chain : Chain) (sink : σ) :
    (chain.resolve p attributeGlobals origin sink).sink =
      AccessSink.recordAll sink (chain.events p attributeGlobals origin) := by
  rw [events_eq_accessesFrom]
  exact (follow_spec p attributeGlobals origin _ _ _).1

theorem resolve_produced {σ : Type} [AccessSink σ] (p : Program) (attributeGlobals : Bool)
    (origin : Origin) (chain : Chain) (sink : σ) :
    (chain.resolve p attributeGlobals origin sink).produced =
      (chain.events p attributeGlobals origin).length := by
  rw [events_eq_accessesFrom]
  exact (follow_spec p attributeGlobals origin _ _ _).2.trans (Nat.zero_add _)

end Chain

end HotFields
