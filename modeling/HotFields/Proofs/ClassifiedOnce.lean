import HotFields.Proofs.CountFormula
import HotFields.Proofs.WalkHistory

namespace HotFields

/-- A walk under way, and the instructions that it has classified, in order. -/
structure Watched (σ : Type) extends Walking σ where
  classified : List InstId := []

namespace Watched

variable {σ : Type} [AccessSink σ]

-- The notes grow here and nowhere else. All other steps are those of `Walking`.
def classifyFrom (p : IndexedProgram) (w : Watched σ) (start : Walking σ) (i : InstId) : Watched σ where
  toWalking := (classify p.toProgram i).foldl (Walking.resolve p) start
  classified := w.classified ++ [i]

def visit (p : IndexedProgram) (w : Watched σ) (i : InstId) : Watched σ :=
  if w.walker.deduplicate then
    if i ∈ w.walker.visited then w
    else w.classifyFrom p { w.toWalking with walker.visited := i :: w.walker.visited } i
  else w.classifyFrom p w.toWalking i

def enterCallee (p : IndexedProgram) (w : Watched σ) (callee : FunctionId) : Watched σ :=
  (p.instructionsOf callee).foldl (visit p)
    { w with
      toWalking := w.toWalking.note
        { level := .debug, source := .walk, message := "walking direct callee",
          fields := [("callee", p.functionName callee)] } }

def followArgument (p : IndexedProgram) (w : Watched σ) (v : Value) : Watched σ :=
  if Walking.isIntegerConstant p v then w else (p.users v).foldl (visit p) w

def walkInstruction (p : IndexedProgram) (w : Watched σ) (i : InstId) : Watched σ :=
  let w := w.visit p i
  if p.instKind i = .call then
    let w :=
      match p.directCallee i with
      | some callee => w.enterCallee p callee
      | none => w
    if w.walker.traverseArgumentUses then (p.callArguments i).foldl (followArgument p) w else w
  else w

end Watched

def Walker.watch {σ : Type} [AccessSink σ] (walker : Walker) (p : IndexedProgram) (function : FunctionId)
    (sink : σ) : Watched σ :=
  (p.instructionsOf function).foldl (Watched.walkInstruction p)
    { walker := { walker with visited := [] }, sink }

namespace Watched

theorem foldl_toWalking {σ α : Type} {watched : Watched σ → α → Watched σ} {step : Walking σ → α → Walking σ}
    (h : ∀ w a, (watched w a).toWalking = step w.toWalking a) (as : List α) (w : Watched σ) :
    (as.foldl watched w).toWalking = as.foldl step w.toWalking :=
  (List.foldl_hom toWalking fun w a => (h w a).symm).symm

variable {σ : Type} [AccessSink σ]

theorem visit_toWalking (p : IndexedProgram) (w : Watched σ) (i : InstId) :
    (w.visit p i).toWalking = w.toWalking.visit p i := by
  unfold visit Walking.visit
  split
  next => split <;> rfl
  next => rfl

theorem enterCallee_toWalking (p : IndexedProgram) (w : Watched σ) (callee : FunctionId) :
    (w.enterCallee p callee).toWalking = w.toWalking.enterCallee p callee :=
  foldl_toWalking (visit_toWalking p) _ _

theorem followArgument_toWalking (p : IndexedProgram) (w : Watched σ) (v : Value) :
    (w.followArgument p v).toWalking = w.toWalking.followArgument p v := by
  unfold followArgument Walking.followArgument
  split
  next => rfl
  next => exact foldl_toWalking (visit_toWalking p) _ _

/-- Forgetting the notes of a watched step leaves the step itself. -/
theorem walkInstruction_toWalking (p : IndexedProgram) (w : Watched σ) (i : InstId) :
    (w.walkInstruction p i).toWalking = w.toWalking.walkInstruction p i := by
  unfold walkInstruction Walking.walkInstruction
  rw [← visit_toWalking]
  split
  next =>
    cases p.directCallee i with
    | none =>
      simp only
      split
      next => exact foldl_toWalking (followArgument_toWalking p) _ _
      next => rfl
    | some callee =>
      simp only
      rw [← enterCallee_toWalking]
      split
      next => exact foldl_toWalking (followArgument_toWalking p) _ _
      next => rfl
  next => rfl

theorem watch_toWalking (walker : Walker) (p : IndexedProgram) (function : FunctionId) (sink : σ) :
    (walker.watch p function sink).toWalking = walker.walk p function sink :=
  foldl_toWalking (walkInstruction_toWalking p) _ _

/-- With de-duplication, the visited instructions are those that have been classified, the last one first. -/
def InStep {σ : Type} (w : Watched σ) : Prop :=
  w.walker.deduplicate = true → w.walker.visited = w.classified.reverse

theorem classifyFrom_walker (p : IndexedProgram) (w : Watched σ) (start : Walking σ) (i : InstId) :
    (w.classifyFrom p start i).walker = start.walker :=
  (Walking.foldl_resolve_spec p (classify p.toProgram i) start).1

/-- The one place where an instruction is classified is the one where it is marked as visited. -/
theorem visit_inStep (p : IndexedProgram) (w : Watched σ) (i : InstId) (h : w.InStep) : (w.visit p i).InStep := by
  unfold visit
  split
  next hd =>
    split
    next => exact h
    next =>
      intro _
      rw [classifyFrom_walker]
      change i :: w.walker.visited = (w.classified ++ [i]).reverse
      rw [h hd, List.reverse_append, List.reverse_singleton, List.singleton_append]
  next hd =>
    intro hd'
    rw [classifyFrom_walker] at hd'
    exact absurd hd' hd

theorem enterCallee_inStep (p : IndexedProgram) (w : Watched σ) (callee : FunctionId) (h : w.InStep) :
    (w.enterCallee p callee).InStep :=
  List.foldlRecOn _ _ h fun w hw i _ => visit_inStep p w i hw

theorem followArgument_inStep (p : IndexedProgram) (w : Watched σ) (v : Value) (h : w.InStep) :
    (w.followArgument p v).InStep := by
  unfold followArgument
  split
  next => exact h
  next => exact List.foldlRecOn _ _ h fun w hw i _ => visit_inStep p w i hw

/-- A call leads to further visits, each of which keeps notes and visits in step. -/
theorem walkInstruction_inStep (p : IndexedProgram) (w : Watched σ) (i : InstId) (h : w.InStep) :
    (w.walkInstruction p i).InStep := by
  have hvisit := visit_inStep p w i h
  have huses : ∀ called : Watched σ, called.InStep →
      (if called.walker.traverseArgumentUses then
        (p.callArguments i).foldl (followArgument p) called else called).InStep := by
    intro called hc
    split
    next => exact List.foldlRecOn _ _ hc fun w hw v _ => followArgument_inStep p w v hw
    next => exact hc
  unfold walkInstruction
  split
  next =>
    cases p.directCallee i with
    | none => exact huses _ hvisit
    | some callee => exact huses _ (enterCallee_inStep p _ callee hvisit)
  next => exact hvisit

/-- A walk with de-duplication classifies the first occurrence of every instruction that it comes across. -/
theorem watch_classified {walker : Walker} (hd : walker.deduplicate = true) (p : IndexedProgram)
    (function : FunctionId) (sink : σ) :
    (walker.watch p function sink).classified = (walker.trace p function).eraseDups := by
  have hstep : (walker.watch p function sink).InStep :=
    List.foldlRecOn _ _ (fun _ => rfl) fun w hw i _ => walkInstruction_inStep p w i hw
  have hwalker := (Walker.covers_walk walker p function sink).walker
  rw [← watch_toWalking] at hwalker
  have hvisited := hstep (by rw [hwalker]; exact hd)
  have hafter : (walker.cleared.after (walker.trace p function)).visited =
      (walker.trace p function).eraseDups.reverse := by
    have hd' : walker.cleared.deduplicate = true := hd
    simp only [Walker.after, hd', if_true, Walker.cleared_unvisited_trace, Walker.classified, hd]
    exact List.append_nil _
  rw [hwalker] at hvisited
  exact List.reverse_injective (hvisited.symm.trans hafter)

end Watched

/-- Which accesses are recorded at all does not depend on de-duplication. -/
theorem mem_walkAccesses (p : IndexedProgram) (o : Options) (functions : List FunctionId) (a : Access) :
    a ∈ walkAccesses p o functions ↔ ∃ function ∈ functions,
      ∃ i ∈ (p.instructionsOf function).flatMap (stopsAt p o.traverseArgumentUses),
        a ∈ accessesOf p.toProgram o.attributeGlobalOperands i := by
  simp only [walkAccesses, Walker.accesses, List.mem_flatMap (b := a), Walker.mem_classified_iff]
  rfl

/-- With de-duplication a walk, whatever its walker walked before, classifies every instruction that it comes across once
and no other, however often the instruction is listed, called into or found as a user. The structures and fields in the
table of an analysis are the same with de-duplication and without. -/
theorem deduplication_keeps_coverage (p : IndexedProgram) (o : Options) :
    (∀ walker : Walker, walker.Worked p { o with deduplicate := true } →
      ∀ (σ : Type) [AccessSink σ] (function : FunctionId) (sink : σ),
        let watched := walker.watch p function sink
        watched.toWalking = walker.walk p function sink ∧
        ∀ i, watched.classified.count i ≤ 1 ∧
          (i ∈ watched.classified ↔
            i ∈ (p.instructionsOf function).flatMap (stopsAt p o.traverseArgumentUses))) ∧
    ∀ owner field, (analyze p { o with deduplicate := true }).table.Present owner field ↔
      (analyze p { o with deduplicate := false }).table.Present owner field := by
  constructor
  · intro walker worked σ _ function sink watched
    have hflags : walker.cleared = Walker.ofOptions { o with deduplicate := true } := worked.follows
    have hd : walker.deduplicate = true := congrArg Walker.deduplicate hflags
    have huses : walker.traverseArgumentUses = o.traverseArgumentUses :=
      congrArg Walker.traverseArgumentUses hflags
    have hclassified := Watched.watch_classified hd p function sink
    refine ⟨Watched.watch_toWalking walker p function sink, fun i => ⟨?_, ?_⟩⟩
    · rw [hclassified]
      exact List.nodup_iff_count_le_one.mp (nodup_eraseDups _) i
    · rw [hclassified, List.mem_eraseDups, Walker.trace, huses]
  · intro owner field
    simp only [analyze_table, Table.present_ofAccesses, mem_walkAccesses]
    rfl

theorem deduplication_keeps_coverage_callsItself :
    let p := callsItself.index
    let worked := ((Walker.ofOptions {}).walk p ⟨1⟩ Table.empty).walker
    let watched := worked.watch p ⟨0⟩ ([] : List Access)
    watched.classified = [⟨0⟩, ⟨1⟩, ⟨2⟩] ∧
    watched.toWalking = worked.walk p ⟨0⟩ [] ∧ (∀ i, watched.classified.count i ≤ 1) ∧
    (analyze p {}).table.count "pair" 1 = 1 ∧
    (analyze p { deduplicate := false }).table.count "pair" 1 = 7 ∧
    ∀ owner field, (analyze p {}).table.Present owner field ↔
      (analyze p { deduplicate := false }).table.Present owner field := by
  intro p worked watched
  obtain ⟨once, coverage⟩ := deduplication_keeps_coverage p {}
  have history : worked.Worked p {} := .walked .fresh ⟨1⟩ Table.empty
  obtain ⟨same, counts⟩ := once worked history (List Access) ⟨0⟩ []
  exact ⟨by decide, same, fun i => (counts i).1, by decide, by decide, coverage⟩

end HotFields
