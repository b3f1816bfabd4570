import HotFields.Analysis.Parallel
import HotFields.Proofs.TableCounts
import HotFields.Proofs.WalkTrace

namespace HotFields

/-- The accesses of walks of functions, one after another, by a walker that follows the options. -/
def walkAccesses (p : IndexedProgram) (o : Options) (functions : List FunctionId) : List Access :=
  functions.flatMap ((Walker.ofOptions o).accesses p)

theorem walkAccesses_append (p : IndexedProgram) (o : Options) (xs ys : List FunctionId) :
    walkAccesses p o (xs ++ ys) = walkAccesses p o xs ++ walkAccesses p o ys :=
  List.flatMap_append

/-- A walker that only differs from the one for the options by what it remembers. -/
def Walker.Follows (walker : Walker) (o : Options) : Prop :=
  walker.cleared = Walker.ofOptions o

theorem Walker.Follows.accesses {walker : Walker} {o : Options} (h : walker.Follows o)
    (p : IndexedProgram) (function : FunctionId) :
    walker.accesses p function = walkAccesses p o [function] := by
  rw [← Walker.cleared_accesses, h, walkAccesses, List.flatMap_singleton]

theorem Walker.Follows.walk {σ : Type} [AccessSink σ] {walker : Walker} {o : Options}
    (h : walker.Follows o) (p : IndexedProgram) (function : FunctionId) (sink : σ) :
    (walker.walk p function sink).walker.Follows o := by
  rw [Walker.Follows, Walker.walk_walker_cleared]
  exact h

namespace Pass

/-- The pass still has its options, and its walker follows them. -/
structure Ready (o : Options) (pass : Pass) : Prop where
  options : pass.options = o
  walker : pass.walker.Follows o

theorem ready_start (o : Options) : Ready o (start o) := ⟨rfl, rfl⟩

/-- One step of a pass: it stays ready, answers by whether the function is a root, and records a fresh walk if so.
-/
theorem runOnFunction_spec {o : Options} {pass : Pass} (ready : Ready o pass) (p : IndexedProgram)
    (function : FunctionId) :
    Ready o (pass.runOnFunction p function).2 ∧
      (pass.runOnFunction p function).1 = isRoot p.toProgram o function ∧
      (pass.runOnFunction p function).2.table = AccessSink.recordAll pass.table
        (walkAccesses p o ([function].filter (isRoot p.toProgram o))) ∧
      (pass.runOnFunction p function).2.walked =
        pass.walked + ([function].filter (isRoot p.toProgram o)).length := by
  unfold runOnFunction
  rw [ready.options]
  cases hr : isRoot p.toProgram o function with
  | true =>
    have hkeep : [function].filter (isRoot p.toProgram o) = [function] := by simp [hr]
    refine ⟨⟨rfl, ready.walker.walk p function pass.table⟩, rfl, ?_, ?_⟩
    · rw [hkeep, ← ready.walker.accesses]
      exact Walker.walk_sink pass.walker p function pass.table
    · rw [hkeep]
      rfl
  | false =>
    have hskip : [function].filter (isRoot p.toProgram o) = [] := by simp [hr]
    refine ⟨⟨rfl, ready.walker⟩, rfl, ?_, ?_⟩
    · rw [hskip]
      rfl
    · rw [hskip]
      rfl

/-- By induction on the functions, from any pass that is ready. -/
theorem foldl_runOnFunction_spec {o : Options} {pass : Pass} (ready : Ready o pass)
    (p : IndexedProgram) (functions : List FunctionId) :
    Ready o (functions.foldl (fun pass f => (pass.runOnFunction p f).2) pass) ∧
      (functions.foldl (fun pass f => (pass.runOnFunction p f).2) pass).table =
        AccessSink.recordAll pass.table
          (walkAccesses p o (functions.filter (isRoot p.toProgram o))) ∧
      (functions.foldl (fun pass f => (pass.runOnFunction p f).2) pass).walked =
        pass.walked + (functions.filter (isRoot p.toProgram o)).length := by
  induction functions generalizing pass with
  | nil => exact ⟨ready, rfl, rfl⟩
  | cons f rest ih =>
    obtain ⟨hr, _, ht, hw⟩ := runOnFunction_spec ready p f
    obtain ⟨hr', ht', hw'⟩ := ih hr
    have hsplit : (f :: rest).filter (isRoot p.toProgram o) =
        [f].filter (isRoot p.toProgram o) ++ rest.filter (isRoot p.toProgram o) := by
      rw [← List.filter_append]
      rfl
    refine ⟨hr', ?_, ?_⟩
    · rw [List.foldl_cons, ht', ht, hsplit, walkAccesses_append, recordAll_append]
    · rw [List.foldl_cons, hw', hw, hsplit, List.length_append, Nat.add_assoc]

end Pass

/-- Only functions with a body are roots, so that looking for bodies first passes over none. -/
theorem filter_isRoot_filter_hasBody (p : Program) (o : Options) :
    (p.functionIds.filter p.hasBody).filter (isRoot p o) = rootsOf p o := by
  rw [rootsOf, List.filter_filter]
  apply List.filter_congr
  intro f _
  cases hb : p.hasBody f <;> simp [isRoot, hb]

/-- An analysis counts one list of accesses: those of its roots, one after another. -/
theorem analyze_table (p : IndexedProgram) (o : Options) :
    (analyze p o).table = Table.ofAccesses (walkAccesses p o (rootsOf p.toProgram o)) := by
  rw [← filter_isRoot_filter_hasBody]
  exact (Pass.foldl_runOnFunction_spec (Pass.ready_start o) p
    (p.functionIds.filter p.hasBody)).2.1

end HotFields
