import HotFields.Proofs.PassRun

namespace HotFields

/-- A walker for the options that has done any number of walks of a program, each into a sink of any kind. -/
inductive Walker.Worked (p : IndexedProgram) (o : Options) : Walker → Prop
  | fresh : Walker.Worked p o (Walker.ofOptions o)
  | walked {walker : Walker} (before : walker.Worked p o) {σ : Type} [AccessSink σ]
    (function : FunctionId) (sink : σ) : Walker.Worked p o (walker.walk p function sink).walker

theorem Walker.Worked.follows {p : IndexedProgram} {o : Options} {walker : Walker}
    (h : walker.Worked p o) : walker.Follows o := by
  induction h with
  | fresh => rfl
  | walked _ function sink ih => exact ih.walk p function sink

theorem recordAll_shared (s : SharedTable) (accesses : List Access) :
    (AccessSink.recordAll s accesses).contents = accesses.foldl Table.record s.contents := by
  induction accesses generalizing s with
  | nil => rfl
  | cons a rest ih => exact ih (s.record a)

/-- Whatever a walker has walked before, a walk appends the accesses of its trace to a list, reports their number, and
leaves a table, shared or not, as if they had been recorded there one by one. -/
theorem Walker.Worked.walk_records {p : IndexedProgram} {o : Options} {walker : Walker}
    (worked : walker.Worked p o) (function : FunctionId) :
    let trace := (p.instructionsOf function).flatMap fun i =>
      i :: (calleeBody p.toProgram i ++ if o.traverseArgumentUses then argumentUsers p i else [])
    let recorded := (if o.deduplicate then trace.eraseDups else trace).flatMap fun i =>
      (classify p.toProgram i).flatMap fun found =>
        found.chain.events p.toProgram o.attributeGlobalOperands found.origin
    (∀ kept : List Access, (walker.walk p function kept).sink = kept ++ recorded) ∧
    (∀ (σ : Type) [AccessSink σ] (sink : σ),
      (walker.walk p function sink).events = recorded.length) ∧
    (∀ t : Table, (walker.walk p function t).sink = recorded.foldl Table.record t) ∧
    ∀ s : SharedTable,
      (walker.walk p function s).sink.contents = recorded.foldl Table.record s.contents := by
  intro trace recorded
  have hrecorded : walker.accesses p function = recorded := by
    rw [worked.follows.accesses, walkAccesses, List.flatMap_singleton]
    rfl
  refine ⟨?_, ?_, ?_, ?_⟩
  · intro kept
    rw [walk_sink, recordAll_list, hrecorded]
  · intro σ _ sink
    rw [walk_events, hrecorded]
  · intro t
    rw [walk_sink, hrecorded]
    rfl
  · intro s
    rw [walk_sink, recordAll_shared, hrecorded]

/-- The entry function lists an address computation twice and calls itself in between. A function beside it uses the
argument that the call passes. -/
def callsItself : Program where
  types := #[.int 32, .struct (some "pair") [⟨0⟩, ⟨0⟩]]
  functions := #[{ name := "main", params := 1, blocks := [{ insts := [⟨0⟩, ⟨1⟩] }, { insts := [⟨0⟩] }] },
    { name := "beside", blocks := [{ insts := [⟨2⟩, ⟨0⟩] }] }]
  instructions := #[.gep ⟨1⟩ (.argument ⟨0⟩ 0) [.constInt 0, .constInt 1],
    .call (.direct ⟨0⟩) [.argument ⟨0⟩ 0, .constInt 4],
    .gep ⟨1⟩ (.argument ⟨0⟩ 0) [.constInt 0, .constInt 0]]

/-- The walk of the function beside leaves both address computations visited, and the next walk records them anew. -/
theorem Walker.Worked.walk_records_callsItself :
    let p := callsItself.index
    let worked := ((Walker.ofOptions {}).walk p ⟨1⟩ Table.empty).walker
    worked.visited = [⟨0⟩, ⟨2⟩] ∧
    (Walker.ofOptions {}).trace p ⟨0⟩ =
      [⟨0⟩, ⟨1⟩, ⟨0⟩, ⟨1⟩, ⟨0⟩, ⟨0⟩, ⟨1⟩, ⟨0⟩, ⟨2⟩, ⟨0⟩, ⟨0⟩] ∧
    (worked.walk p ⟨0⟩ ([] : List Access)).sink = [⟨"pair", 1, .address⟩, ⟨"pair", 0, .address⟩] ∧
    (worked.walk p ⟨0⟩ ({} : SharedTable)).events = 2 :=
  have records := Walker.Worked.walk_records (.walked (.fresh (o := {})) ⟨1⟩ Table.empty) ⟨0⟩
  ⟨by decide, by decide, records.1 [], records.2.1 SharedTable {}⟩

end HotFields
