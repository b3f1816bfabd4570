import HotFields.Proofs.PassRun
import HotFields.Proofs.QuietWalk

namespace HotFields

namespace Plan

theorem walkChunk_spec (p : IndexedProgram) (o : Options) (roots : List FunctionId) :
    (walkChunk p o roots).sink = Table.ofAccesses (walkAccesses p o roots) := by
  -- one walker goes through the whole run, and every walk starts afresh
  have hrun : ∀ (fs : List FunctionId) (done : Walking Table), done.walker.Follows o →
      (fs.foldl (fun done function =>
        let w := done.walker.walk p function done.sink
        { w with events := done.events + w.events, log := done.log ++ w.log }) done).sink =
        AccessSink.recordAll done.sink (walkAccesses p o fs) := by
    intro fs
    induction fs with
    | nil => exact fun done _ => rfl
    | cons f rest ih =>
      intro done hf
      have hsink := Walker.walk_sink done.walker p f done.sink
      rw [hf.accesses p f] at hsink
      rw [List.foldl_cons]
      refine (ih _ ?_).trans ?_
      · exact hf.walk p f done.sink
      · change AccessSink.recordAll (done.walker.walk p f done.sink).sink (walkAccesses p o rest) = _
        rw [hsink, ← recordAll_append, ← walkAccesses_append]
        rfl
  exact hrun roots _ rfl

/-- The table of a plan depends on its roots only. -/
theorem run_eq_ofAccesses (p : IndexedProgram) (o : Options) (plan : Plan) :
    plan.run p o = Table.ofAccesses (walkAccesses p o plan.roots) := by
  induction plan with
  | chunk roots => exact walkChunk_spec p o roots
  | blank => rfl
  | join left right hl hr =>
    rw [run, hl, hr, Table.merged_ofAccesses, ← walkAccesses_append]
    rfl

end Plan

/-- Walks never warn, so the warning can come from nowhere else. -/
theorem noRootsEntry_mem_analyze (p : IndexedProgram) (o : Options) :
    noRootsEntry o ∈ (analyze p o).log ↔ rootsOf p.toProgram o = [] := by
  have hwalked := (Pass.foldl_runOnFunction_spec (Pass.ready_start o) p
    (p.functionIds.filter p.hasBody)).2.2
  rw [filter_isRoot_filter_hasBody] at hwalked
  have hquiet := Pass.foldl_runOnFunction_quiet p (p.functionIds.filter p.hasBody)
    (show (Pass.start o).log.Quiet from Log.quiet_nil)
  have hstart : (Pass.start o).walked = 0 := rfl
  unfold analyze
  simp only
  split
  next hzero =>
    have hnone : rootsOf p.toProgram o = [] := List.length_eq_zero_iff.mp (by omega)
    simp [hnone]
  next hsome =>
    have hne : rootsOf p.toProgram o ≠ [] := by
      intro hnil
      rw [hnil, List.length_nil] at hwalked
      omega
    exact iff_of_false (hquiet.not_mem rfl) hne

theorem noRootsEntry_mem_analyzeBy (plan : Plan) (p : IndexedProgram) (o : Options) :
    noRootsEntry o ∈ (analyzeBy plan p o).log ++ plan.workerLog p o ↔ plan.roots = [] := by
  have hlog := plan.log_quiet p o
  have hcaller : (plan.callerLog p o).Quiet := by
    unfold Plan.callerLog
    split
    next => exact Log.quiet_nil
    next => exact hlog
  have hworker : (plan.workerLog p o).Quiet := by
    unfold Plan.workerLog
    split
    next => exact hlog
    next => exact Log.quiet_nil
  cases hr : plan.roots with
  | nil => simp [analyzeBy, hr]
  | cons root rest =>
    have hc := hcaller.not_mem (show (noRootsEntry o).level = .warn from rfl)
    have hw := hworker.not_mem (show (noRootsEntry o).level = .warn from rfl)
    simp [analyzeBy, hr, hc, hw]
    simp [noRootsEntry]

/-- Every plan for the roots of a program gives the table of the analysis function by function. Of all
entries, those of the workers included, the warning is among them in the same cases. -/
theorem analyzeBy_agrees_analyze (p : IndexedProgram) (o : Options) (plan : Plan)
    (hroots : plan.roots = rootsOf p.toProgram o) :
    (analyzeBy plan p o).table = (analyze p o).table ∧
      (noRootsEntry o ∈ (analyzeBy plan p o).log ++ plan.workerLog p o ↔
        noRootsEntry o ∈ (analyze p o).log) := by
  constructor
  · rw [analyze_table, ← hroots]
    exact plan.run_eq_ofAccesses p o
  · rw [noRootsEntry_mem_analyzeBy, noRootsEntry_mem_analyze, hroots]

/-- Two entry functions that share an address computation. -/
def sharedAddress : Program where
  types := #[.int 32, .struct (some "pair") [⟨0⟩, ⟨0⟩]]
  functions := #[{ name := "main", params := 1, blocks := [{ insts := [⟨0⟩, ⟨0⟩] }] },
    { name := "main", blocks := [{ insts := [⟨0⟩] }] }]
  instructions := #[.gep ⟨1⟩ (.argument ⟨0⟩ 0) [.constInt 0, .constInt 1]]

theorem analyzeBy_agrees_analyze_sharedAddress :
    let plan := Plan.join (.chunk [⟨0⟩]) (.join (.join .blank (.chunk [])) (.chunk [⟨1⟩]))
    plan.roots = rootsOf sharedAddress {} ∧
      (analyzeBy plan sharedAddress.index {}).table = (analyze sharedAddress.index {}).table ∧
      (noRootsEntry {} ∈ (analyzeBy plan sharedAddress.index {}).log ++ plan.workerLog sharedAddress.index {} ↔
        noRootsEntry {} ∈ (analyze sharedAddress.index {}).log) :=
  ⟨by decide, analyzeBy_agrees_analyze sharedAddress.index {} _ (by decide)⟩

end HotFields
