import HotFields.Analysis.Parallel

namespace HotFields

/-- No entry is a warning. -/
def Log.Quiet (log : Log) : Prop := ∀ entry ∈ log, entry.level ≠ .warn

namespace Log

theorem quiet_nil : Quiet [] := by
  intro entry he
  simp at he

theorem Quiet.append {xs ys : Log} (hx : Quiet xs) (hy : Quiet ys) : Quiet (xs ++ ys) := by
  intro entry he
  rcases List.mem_append.mp he with he | he
  · exact hx entry he
  · exact hy entry he

theorem quiet_singleton {entry : Entry} (h : entry.level ≠ .warn) : Quiet [entry] := by
  intro other ho
  rw [List.mem_singleton.mp ho]
  exact h

theorem Quiet.not_mem {log : Log} (h : Quiet log) {entry : Entry} (hw : entry.level = .warn) :
    entry ∉ log :=
  fun he => h entry he hw

end Log

theorem Walking.foldl_quiet {σ α : Type} {step : Walking σ → α → Walking σ}
    (hstep : ∀ w a, w.log.Quiet → (step w a).log.Quiet) (as : List α) {w : Walking σ}
    (h : w.log.Quiet) : (as.foldl step w).log.Quiet := by
  induction as generalizing w with
  | nil => exact h
  | cons a rest ih => exact ih (hstep w a h)

variable {σ : Type} [AccessSink σ]

theorem Resolution.credit_log (r : Resolution σ) (owner : Option String) (field : UInt64)
    (origin : Origin) : (r.credit owner field origin).log = r.log := by
  cases owner <;> rfl

/-- A chain that is dropped is noted at the lowest level. -/
theorem Chain.follow_quiet (p : Program) (attributeGlobals : Bool) (origin : Origin)
    (cursor : Option TypeId) (operands : List Value) {r : Resolution σ} (h : r.log.Quiet) :
    (follow p attributeGlobals origin cursor operands r).log.Quiet := by
  induction operands generalizing cursor r with
  | nil => cases cursor <;> exact h
  | cons operand rest ih =>
    cases cursor with
    | none => exact h.append (Log.quiet_singleton (by simp))
    | some t =>
      unfold follow
      split
      next => exact h.append (Log.quiet_singleton (by simp))
      next index _ =>
        apply ih
        rw [Resolution.credit_log, Resolution.credit_log]
        exact h

namespace Walking

theorem resolve_quiet (p : IndexedProgram) (w : Walking σ) (found : Found) (h : w.log.Quiet) :
    (w.resolve p found).log.Quiet := by
  refine (h.append ?_).append (Log.quiet_singleton (by simp))
  exact Chain.follow_quiet _ _ _ _ _ Log.quiet_nil

theorem visit_quiet (p : IndexedProgram) (w : Walking σ) (i : InstId) (h : w.log.Quiet) :
    (w.visit p i).log.Quiet := by
  unfold visit
  split
  next =>
    split
    next => exact h
    next => exact foldl_quiet (resolve_quiet p) _ h
  next => exact foldl_quiet (resolve_quiet p) _ h

theorem enterCallee_quiet (p : IndexedProgram) (w : Walking σ) (callee : FunctionId)
    (h : w.log.Quiet) : (w.enterCallee p callee).log.Quiet := by
  apply foldl_quiet (visit_quiet p)
  exact h.append (Log.quiet_singleton (by simp))

theorem followArgument_quiet (p : IndexedProgram) (w : Walking σ) (v : Value) (h : w.log.Quiet) :
    (w.followArgument p v).log.Quiet := by
  unfold followArgument
  split
  next => exact h
  next => exact foldl_quiet (visit_quiet p) _ h

/-- The entries about callees are of a level below a warning. -/
theorem walkInstruction_quiet (p : IndexedProgram) (w : Walking σ) (i : InstId) (h : w.log.Quiet) :
    (w.walkInstruction p i).log.Quiet := by
  have hvisit := visit_quiet p w i h
  have huses : ∀ called : Walking σ, called.log.Quiet →
      (if called.walker.traverseArgumentUses then
        (p.callArguments i).foldl (followArgument p) called else called).log.Quiet := by
    intro called hc
    split
    next => exact foldl_quiet (followArgument_quiet p) _ hc
    next => exact hc
  unfold walkInstruction
  split
  next =>
    cases p.directCallee i with
    | none => exact huses _ hvisit
    | some callee => exact huses _ (enterCallee_quiet p _ callee hvisit)
  next => exact hvisit

end Walking

theorem Walker.walk_quiet (walker : Walker) (p : IndexedProgram) (function : FunctionId) (sink : σ) :
    (walker.walk p function sink).log.Quiet :=
  Walking.foldl_quiet (Walking.walkInstruction_quiet p) _ Log.quiet_nil

theorem Pass.runOnFunction_quiet (p : IndexedProgram) {pass : Pass} (function : FunctionId)
    (h : pass.log.Quiet) : (pass.runOnFunction p function).2.log.Quiet := by
  unfold runOnFunction
  split
  next =>
    have hwalk := pass.walker.walk_quiet p function pass.table
    exact (h.append hwalk).append (Log.quiet_singleton (by simp))
  next => exact h.append (Log.quiet_singleton (by simp))

theorem Pass.foldl_runOnFunction_quiet (p : IndexedProgram) (functions : List FunctionId)
    {pass : Pass} (h : pass.log.Quiet) :
    (functions.foldl (fun pass f => (pass.runOnFunction p f).2) pass).log.Quiet := by
  induction functions generalizing pass with
  | nil => exact h
  | cons f rest ih => exact ih (runOnFunction_quiet p f h)

theorem Plan.walkChunk_quiet (p : IndexedProgram) (o : Options) (roots : List FunctionId) :
    (walkChunk p o roots).log.Quiet := by
  refine Walking.foldl_quiet ?_ roots Log.quiet_nil
  intro done function h
  exact h.append (done.walker.walk_quiet p function done.sink)

theorem Plan.log_quiet (p : IndexedProgram) (o : Options) (plan : Plan) :
    (plan.log p o).Quiet := by
  induction plan with
  | chunk roots => exact walkChunk_quiet p o roots
  | blank => exact Log.quiet_nil
  | join left right hl hr => exact hl.append hr

end HotFields
