import HotFields.Proofs.CountFormula
import HotFields.Proofs.ParallelAgreement

namespace HotFields

namespace Pass

/-- Hands functions to a pass one after another. Its answers tell which of them it walked. -/
def drive (p : IndexedProgram) (pass : Pass) : List FunctionId → List Bool × Pass
  | [] => ([], pass)
  | function :: rest =>
    let (answer, pass) := pass.runOnFunction p function
    let (answers, pass) := drive p pass rest
    (answer :: answers, pass)

theorem drive_pass (p : IndexedProgram) (pass : Pass) (functions : List FunctionId) :
    (pass.drive p functions).2 =
      functions.foldl (fun pass function => (pass.runOnFunction p function).2) pass := by
  induction functions generalizing pass with
  | nil => rfl
  | cons function rest ih => exact ih (pass.runOnFunction p function).2

/-- A pass answers for each function by its options alone, whatever it was handed before. -/
theorem drive_answers {o : Options} {pass : Pass} (ready : Ready o pass) (p : IndexedProgram)
    (functions : List FunctionId) :
    (pass.drive p functions).1 = functions.map (isRoot p.toProgram o) := by
  induction functions generalizing pass with
  | nil => rfl
  | cons function rest ih =>
    obtain ⟨hready, hanswer, _⟩ := runOnFunction_spec ready p function
    have hrest := ih hready
    rw [List.map_cons, ← hanswer, ← hrest]
    rfl

/-- The table and the number of walks are those of fresh walks of the roots. -/
theorem drive_start_spec (p : IndexedProgram) (o : Options) (functions : List FunctionId) :
    ((start o).drive p functions).2.table =
        Table.ofAccesses (walkAccesses p o (functions.filter (isRoot p.toProgram o))) ∧
      ((start o).drive p functions).2.walked = (functions.filter (isRoot p.toProgram o)).length := by
  obtain ⟨_, htable, hwalked⟩ := foldl_runOnFunction_spec (ready_start o) p functions
  rw [drive_pass]
  exact ⟨htable, hwalked.trans (Nat.zero_add _)⟩

theorem drive_start_perm (p : IndexedProgram) (o : Options) {functions others : List FunctionId}
    (h : functions.Perm others) :
    ((start o).drive p others).2.table = ((start o).drive p functions).2.table ∧
      ((start o).drive p others).2.walked = ((start o).drive p functions).2.walked := by
  obtain ⟨htable, hwalked⟩ := drive_start_spec p o functions
  obtain ⟨htable', hwalked'⟩ := drive_start_spec p o others
  have hroots := h.filter (isRoot p.toProgram o)
  rw [htable, hwalked, htable', hwalked']
  refine ⟨?_, hroots.length_eq.symm⟩
  exact (Table.ofAccesses_perm (hroots.flatMap_right _)).symm

end Pass

/-- A pass that is handed functions in any order, also repeatedly and also without a body or with no function behind
an id, walks exactly the roots among them, and counts what fresh walks of them record. The order shows in neither
the count of walks, the table nor the report, and an analysis is the pass over all functions. -/
theorem Pass.drive_start_eq_fresh_walks (p : IndexedProgram) (o : Options) (functions : List FunctionId) :
    let (answers, pass) := (Pass.start o).drive p functions
    answers = functions.map (fun function => decide (p.StartsAt o function)) ∧
    pass.walked = answers.count true ∧
    pass.table = Table.ofAccesses ((functions.filter (p.StartsAt o)).flatMap fun function =>
      ((Walker.ofOptions o).walk p function ([] : List Access)).sink) ∧
    (∀ others, functions.Perm others →
      let pass' := ((Pass.start o).drive p others).2
      pass'.walked = pass.walked ∧ pass'.table = pass.table ∧ pass'.finalize.1 = pass.finalize.1) ∧
    (analyze p o).table = ((Pass.start o).drive p p.functionIds).2.table ∧
    (noRootsEntry o ∈ (analyze p o).log ↔ ((Pass.start o).drive p p.functionIds).2.walked = 0) := by
  have hanswers := drive_answers (ready_start o) p functions
  obtain ⟨htable, hwalked⟩ := drive_start_spec p o functions
  obtain ⟨hall, hcount⟩ := drive_start_spec p o p.functionIds
  have hroots := p.toProgram.decide_startsAt o
  simp only
  refine ⟨?_, ?_, ?_, ?_, ?_, ?_⟩
  · rw [hanswers, hroots]
  · rw [hwalked, hanswers, List.count_eq_countP, List.countP_map, ← List.countP_eq_length_filter]
    exact List.countP_congr fun function _ => by simp
  · rw [htable, hroots]
    simp only [Walker.walk_list]
    rfl
  · intro others hperm
    obtain ⟨htable', hwalked'⟩ := drive_start_perm p o hperm
    exact ⟨hwalked', htable', congrArg Report.render htable'⟩
  · rw [analyze_table, hall]
    rfl
  · rw [noRootsEntry_mem_analyze, hcount, List.length_eq_zero_iff]
    rfl

/-- Two entry functions that share an address computation, a declaration between them, and a function beside them. -/
def twoEntries : Program where
  types := #[.int 32, .struct (some "pair") [⟨0⟩, ⟨0⟩]]
  functions := #[{ name := "main", params := 1, blocks := [{ insts := [⟨0⟩, ⟨1⟩] }] }, { name := "sink" },
    { name := "main", blocks := [{ insts := [⟨0⟩] }] }, { name := "beside", blocks := [{ insts := [⟨0⟩] }] }]
  instructions := #[.gep ⟨1⟩ (.argument ⟨0⟩ 0) [.constInt 0, .constInt 1],
    .call (.direct ⟨1⟩) [.argument ⟨0⟩ 0]]

theorem Pass.drive_start_eq_fresh_walks_twoEntries :
    let p := twoEntries.index
    let (answers, pass) := (Pass.start {}).drive p [⟨0⟩, ⟨1⟩, ⟨9⟩, ⟨2⟩, ⟨3⟩, ⟨0⟩]
    let pass' := ((Pass.start {}).drive p [⟨9⟩, ⟨2⟩, ⟨0⟩, ⟨0⟩, ⟨3⟩, ⟨1⟩]).2
    answers = [true, false, false, true, false, true] ∧ pass.walked = 3 ∧ pass.table.count "pair" 1 = 3 ∧
      pass'.walked = pass.walked ∧ pass'.table = pass.table ∧ pass'.finalize.1 = pass.finalize.1 :=
  have fresh := Pass.drive_start_eq_fresh_walks twoEntries.index {} [⟨0⟩, ⟨1⟩, ⟨9⟩, ⟨2⟩, ⟨3⟩, ⟨0⟩]
  ⟨by decide, by decide, by decide, fresh.2.2.2.1 [⟨9⟩, ⟨2⟩, ⟨0⟩, ⟨0⟩, ⟨3⟩, ⟨1⟩] (by decide)⟩

end HotFields
