import HotFields.Analysis.Walk
import HotFields.Proofs.ChainAccesses

namespace HotFields

/-- The accesses of one instruction. -/
def accessesOf (p : Program) (attributeGlobals : Bool) (i : InstId) : List Access :=
  (classify p i).flatMap fun found => found.chain.events p attributeGlobals found.origin

/-- The body of the direct callee of an instruction. -/
def calleeBody (p : Program) (i : InstId) : List InstId :=
  match p.directCallee i with
  | some callee => p.instructionsOf callee
  | none => []

/-- The users of the arguments of an instruction, argument after argument. Integers are passed over. -/
def argumentUsers (p : IndexedProgram) (i : InstId) : List InstId :=
  ((p.callArguments i).filter fun v => !v.isConstInt).flatMap p.users

theorem no_call_of_instKind {p : Program} {i : InstId} (hk : p.instKind i ≠ .call) :
    p.directCallee i = none ∧ p.callArguments i = [] := by
  unfold Program.instKind at hk
  unfold Program.directCallee Program.callArguments
  cases hi : p.instruction? i with
  | none => exact ⟨rfl, rfl⟩
  | some inst =>
    rw [hi] at hk
    cases inst with
    | call callee args => exact absurd rfl hk
    | _ => exact ⟨rfl, rfl⟩

/-- An instruction and those that a walk goes on to from it. -/
def stopsAt (p : IndexedProgram) (followUses : Bool) (i : InstId) : List InstId :=
  i :: (calleeBody p.toProgram i ++ if followUses then argumentUsers p i else [])

namespace Walker

/-- The instructions of a list that a walker classifies, in order. -/
def unvisited (walker : Walker) (insts : List InstId) : List InstId :=
  if walker.deduplicate then (insts.filter fun i => i ∉ walker.visited).eraseDups else insts

/-- A walker that has come across the instructions of a list. -/
def after (walker : Walker) (insts : List InstId) : Walker :=
  { walker with
    visited :=
      if walker.deduplicate then (walker.unvisited insts).reverse ++ walker.visited
      else walker.visited }

/-- What is new in the second list is judged after the first. -/
theorem unvisited_append (walker : Walker) (xs ys : List InstId) :
    walker.unvisited (xs ++ ys) = walker.unvisited xs ++ (walker.after xs).unvisited ys := by
  cases hd : walker.deduplicate with
  | false => simp [unvisited, after, hd]
  | true =>
    have hsame : (ys.filter fun i => i ∉ walker.visited).removeAll
          (xs.filter fun i => i ∉ walker.visited) =
        ys.filter fun i => i ∉ (walker.after xs).visited := by
      rw [List.removeAll, List.filter_filter]
      apply List.filter_congr
      intro i _
      by_cases hv : i ∈ walker.visited <;> simp [after, unvisited, hd, hv, List.mem_eraseDups]
    have hd' : (walker.after xs).deduplicate = true := hd
    simp only [unvisited, hd, hd', if_true, List.filter_append, List.eraseDups_append, hsame]

theorem after_append (walker : Walker) (xs ys : List InstId) :
    walker.after (xs ++ ys) = (walker.after xs).after ys := by
  cases hd : walker.deduplicate with
  | false => simp [after, hd]
  | true =>
    have hvisited : (walker.after (xs ++ ys)).visited = ((walker.after xs).after ys).visited := by
      simp only [after, hd, if_true]
      rw [unvisited_append, List.reverse_append, List.append_assoc]
      simp only [after, hd, if_true]
    simp only [after] at hvisited ⊢
    rw [hvisited]

theorem after_eq_self {walker : Walker} {insts : List InstId}
    (h : (walker.after insts).visited = walker.visited) : walker.after insts = walker := by
  change { walker with visited := (walker.after insts).visited } = walker
  rw [h]

theorem after_nil (walker : Walker) : walker.after [] = walker := by
  apply after_eq_self
  cases hd : walker.deduplicate <;> simp [after, unvisited, hd]

/-- The accesses that a walker records for a list of instructions. -/
def accessesOn (walker : Walker) (p : Program) (insts : List InstId) : List Access :=
  (walker.unvisited insts).flatMap (accessesOf p walker.attributeGlobalOperands)

theorem accessesOn_append (walker : Walker) (p : Program) (xs ys : List InstId) :
    walker.accessesOn p (xs ++ ys) = walker.accessesOn p xs ++ (walker.after xs).accessesOn p ys := by
  rw [accessesOn, unvisited_append, List.flatMap_append]
  rfl

end Walker

namespace Walking

variable {σ : Type} [AccessSink σ]

/-- The second walk has gone on from the first one over a list of instructions. -/
structure Covers (p : IndexedProgram) (w w' : Walking σ) (insts : List InstId) : Prop where
  walker : w'.walker = w.walker.after insts
  sink : w'.sink = AccessSink.recordAll w.sink (w.walker.accessesOn p.toProgram insts)
  events : w'.events = w.events + (w.walker.accessesOn p.toProgram insts).length

theorem covers_nil {p : IndexedProgram} {w w' : Walking σ} (hw : w'.walker = w.walker)
    (hs : w'.sink = w.sink) (he : w'.events = w.events) : Covers p w w' [] := by
  have hnone : w.walker.accessesOn p.toProgram [] = [] := by
    cases hd : w.walker.deduplicate <;> simp [Walker.accessesOn, Walker.unvisited, hd]
  refine ⟨?_, ?_, ?_⟩
  · rw [hw, Walker.after_nil]
  · rw [hs, hnone, recordAll_nil]
  · rw [he, hnone, List.length_nil, Nat.add_zero]

theorem Covers.trans {p : IndexedProgram} {w w' w'' : Walking σ} {xs ys : List InstId}
    (hx : Covers p w w' xs) (hy : Covers p w' w'' ys) : Covers p w w'' (xs ++ ys) := by
  refine ⟨?_, ?_, ?_⟩
  · rw [hy.walker, hx.walker, Walker.after_append]
  · rw [hy.sink, hx.sink, hx.walker, Walker.accessesOn_append, recordAll_append]
  · rw [hy.events, hx.events, hx.walker, Walker.accessesOn_append, List.length_append, Nat.add_assoc]

/-- A loop covers what its rounds cover, one after the other. -/
theorem covers_foldl {α : Type} {p : IndexedProgram} {step : Walking σ → α → Walking σ}
    {stops : α → List InstId} (hstep : ∀ w a, Covers p w (step w a) (stops a)) (as : List α)
    (w : Walking σ) : Covers p w (as.foldl step w) (as.flatMap stops) := by
  induction as generalizing w with
  | nil => exact covers_nil rfl rfl rfl
  | cons a rest ih => exact (hstep w a).trans (ih (step w a))

/-- Resolving chains changes the sink and the log, but nothing that the walker remembers. -/
theorem foldl_resolve_spec (p : IndexedProgram) (found : List Found) (w : Walking σ) :
    (found.foldl (resolve p) w).walker = w.walker ∧
      (found.foldl (resolve p) w).sink = AccessSink.recordAll w.sink (found.flatMap fun f =>
        f.chain.events p.toProgram w.walker.attributeGlobalOperands f.origin) ∧
      (found.foldl (resolve p) w).events = w.events + (found.flatMap fun f =>
        f.chain.events p.toProgram w.walker.attributeGlobalOperands f.origin).length := by
  induction found generalizing w with
  | nil => exact ⟨rfl, rfl, rfl⟩
  | cons f rest ih =>
    obtain ⟨hw, hs, he⟩ := ih (resolve p w f)
    have hs' : (resolve p w f).sink = _ :=
      Chain.resolve_sink p.toProgram w.walker.attributeGlobalOperands f.origin f.chain w.sink
    have he' : (resolve p w f).events = w.events + _ := congrArg (w.events + ·)
      (Chain.resolve_produced p.toProgram w.walker.attributeGlobalOperands f.origin f.chain w.sink)
    refine ⟨hw, ?_, ?_⟩
    · rw [List.foldl_cons, hs, hs', List.flatMap_cons, recordAll_append]
      rfl
    · rw [List.foldl_cons, he, he', List.flatMap_cons, List.length_append, ← Nat.add_assoc]
      rfl

/-- The step of all walks: an instruction is classified if it is new, or if the walker does not de-duplicate. -/
theorem covers_visit (p : IndexedProgram) (w : Walking σ) (i : InstId) :
    Covers p w (w.visit p i) [i] := by
  unfold visit
  cases hd : w.walker.deduplicate with
  | false =>
    obtain ⟨hw, hs, he⟩ := foldl_resolve_spec p (classify p.toProgram i) w
    have hone : w.walker.accessesOn p.toProgram [i] =
        accessesOf p.toProgram w.walker.attributeGlobalOperands i := by
      simp [Walker.accessesOn, Walker.unvisited, hd]
    simp only [Bool.false_eq_true, if_false]
    refine ⟨?_, ?_, ?_⟩
    · rw [hw, Walker.after_eq_self (by simp [Walker.after, hd])]
    · rw [hone]
      exact hs
    · rw [hone]
      exact he
  | true =>
    by_cases hv : i ∈ w.walker.visited
    · have hnone : w.walker.unvisited [i] = [] := by simp [Walker.unvisited, hd, hv]
      simp only [if_true, hv]
      refine ⟨?_, ?_, ?_⟩
      · rw [Walker.after_eq_self (by simp [Walker.after, hd, hnone])]
      · rw [Walker.accessesOn, hnone]
        rfl
      · rw [Walker.accessesOn, hnone]
        rfl
    · obtain ⟨hw, hs, he⟩ := foldl_resolve_spec p (classify p.toProgram i)
        { w with walker.visited := i :: w.walker.visited }
      have hone : w.walker.unvisited [i] = [i] := by simp [Walker.unvisited, hd, hv, List.eraseDups_cons]
      have haccesses : w.walker.accessesOn p.toProgram [i] =
          accessesOf p.toProgram w.walker.attributeGlobalOperands i := by
        simp [Walker.accessesOn, hone]
      simp only [if_true, if_false, hv]
      refine ⟨?_, ?_, ?_⟩
      · rw [hw]
        simp [Walker.after, hd, hone]
      · rw [haccesses]
        exact hs
      · rw [haccesses]
        exact he

theorem covers_foldl_visit (p : IndexedProgram) (insts : List InstId) (w : Walking σ) :
    Covers p w (insts.foldl (visit p) w) insts := by
  have hh := covers_foldl (covers_visit (σ := σ) p) insts w
  simpa using hh

theorem covers_note (p : IndexedProgram) (w : Walking σ) (entry : Log.Entry) :
    Covers p w (w.note entry) [] :=
  covers_nil rfl rfl rfl

theorem covers_enterCallee (p : IndexedProgram) (w : Walking σ) (callee : FunctionId) :
    Covers p w (w.enterCallee p callee) (p.instructionsOf callee) := by
  exact (covers_note p w _).trans (covers_foldl_visit p (p.instructionsOf callee) _)

theorem isIntegerConstant_eq (p : IndexedProgram) (v : Value) :
    isIntegerConstant p v = v.isConstInt := by
  cases v with
  | global id =>
    simp only [isIntegerConstant, Program.constantIndex, Program.globalType]
    cases p.global? id <;> simp [Value.isConstInt]
  | _ => rfl

/-- Integer constants among the arguments lead nowhere. -/
theorem covers_followArguments (p : IndexedProgram) (args : List Value) (w : Walking σ) :
    Covers p w (args.foldl (followArgument p) w)
      ((args.filter fun v => !v.isConstInt).flatMap p.users) := by
  induction args generalizing w with
  | nil => exact covers_nil rfl rfl rfl
  | cons v rest ih =>
    rw [List.foldl_cons, List.filter_cons]
    cases hv : v.isConstInt with
    | true =>
      have hskip : followArgument p w v = w := by simp [followArgument, isIntegerConstant_eq, hv]
      rw [hskip]
      exact ih w
    | false =>
      have hgo : followArgument p w v = (p.users v).foldl (visit p) w := by
        simp [followArgument, isIntegerConstant_eq, hv]
      rw [hgo]
      exact (covers_foldl_visit p (p.users v) w).trans (ih _)

/-- Itself, then the body of its callee, then the users of its arguments: the stops in their order. -/
theorem covers_walkInstruction (p : IndexedProgram) (w : Walking σ) (i : InstId) :
    Covers p w (w.walkInstruction p i) (stopsAt p w.walker.traverseArgumentUses i) := by
  have hvisit := covers_visit p w i
  by_cases hk : p.instKind i = .call
  · let called : Walking σ :=
      match p.directCallee i with
      | some callee => (w.visit p i).enterCallee p callee
      | none => w.visit p i
    have hcallee : Covers p (w.visit p i) called (calleeBody p.toProgram i) := by
      unfold called calleeBody
      cases p.directCallee i with
      | none => exact covers_nil rfl rfl rfl
      | some callee => exact covers_enterCallee p _ callee
    have hflag : called.walker.traverseArgumentUses = w.walker.traverseArgumentUses := by
      rw [hcallee.walker, hvisit.walker]
      rfl
    have hwalk : w.walkInstruction p i =
        if w.walker.traverseArgumentUses then (p.callArguments i).foldl (followArgument p) called
        else called := by
      rw [← hflag]
      simp only [walkInstruction, hk, if_true]
      rfl
    rw [hwalk]
    refine hvisit.trans (hcallee.trans ?_)
    cases w.walker.traverseArgumentUses with
    | false => exact covers_nil rfl rfl rfl
    | true => exact covers_followArguments p (p.callArguments i) called
  · have hwalk : w.walkInstruction p i = w.visit p i := by simp [walkInstruction, hk]
    obtain ⟨hc, ha⟩ := no_call_of_instKind hk
    have hstops : stopsAt p w.walker.traverseArgumentUses i = [i] := by
      simp [stopsAt, calleeBody, argumentUsers, hc, ha]
    rw [hwalk, hstops]
    exact hvisit

end Walking

namespace Walker

/-- The instructions that a walk of a function comes across, in order. -/
def trace (walker : Walker) (p : IndexedProgram) (function : FunctionId) : List InstId :=
  (p.instructionsOf function).flatMap (stopsAt p walker.traverseArgumentUses)

/-- The instructions that a walk of a function classifies, in order. -/
def classified (walker : Walker) (p : IndexedProgram) (function : FunctionId) : List InstId :=
  if walker.deduplicate then (walker.trace p function).eraseDups else walker.trace p function

theorem mem_classified_iff {walker : Walker} {p : IndexedProgram} {function : FunctionId}
    {i : InstId} : i ∈ walker.classified p function ↔ i ∈ walker.trace p function := by
  unfold classified
  split
  next => exact List.mem_eraseDups
  next => exact Iff.rfl

/-- The accesses that a walk of a function records, in order. -/
def accesses (walker : Walker) (p : IndexedProgram) (function : FunctionId) : List Access :=
  (walker.classified p function).flatMap
    (accessesOf p.toProgram walker.attributeGlobalOperands)

/-- A walker with the same switches that remembers nothing. -/
def cleared (walker : Walker) : Walker := { walker with visited := [] }

theorem cleared_accesses (walker : Walker) (p : IndexedProgram) (function : FunctionId) :
    walker.cleared.accesses p function = walker.accesses p function := rfl

theorem cleared_unvisited_trace (walker : Walker) (p : IndexedProgram) (function : FunctionId) :
    walker.cleared.unvisited (walker.trace p function) = walker.classified p function := by
  have hall : (walker.trace p function).filter (fun i => i ∉ walker.cleared.visited) =
      walker.trace p function :=
    List.filter_eq_self.mpr (by simp [cleared])
  rw [unvisited, hall]
  rfl

theorem accessesOn_trace (walker : Walker) (p : IndexedProgram) (function : FunctionId) :
    walker.cleared.accessesOn p.toProgram (walker.trace p function) = walker.accesses p function := by
  rw [accessesOn, cleared_unvisited_trace]
  rfl

section Walk

variable {σ : Type} [AccessSink σ]

/-- By induction on the listing of the function. -/
theorem covers_walk (walker : Walker) (p : IndexedProgram) (function : FunctionId) (sink : σ) :
    Walking.Covers p { walker := walker.cleared, sink } (walker.walk p function sink)
      (walker.trace p function) := by
  -- the switches do not change on the way, so that every round goes on to the same stops
  have hrun : ∀ (insts : List InstId) (w : Walking σ),
      w.walker.traverseArgumentUses = walker.traverseArgumentUses →
      Walking.Covers p w (insts.foldl (Walking.walkInstruction p) w)
        (insts.flatMap (stopsAt p walker.traverseArgumentUses)) := by
    intro insts
    induction insts with
    | nil => exact fun w _ => Walking.covers_nil rfl rfl rfl
    | cons i rest ih =>
      intro w hflag
      have hstep := Walking.covers_walkInstruction p w i
      rw [hflag] at hstep
      exact hstep.trans (ih _ (by rw [hstep.walker]; exact hflag))
  exact hrun (p.instructionsOf function) _ rfl

theorem walk_sink (walker : Walker) (p : IndexedProgram) (function : FunctionId) (sink : σ) :
    (walker.walk p function sink).sink =
      AccessSink.recordAll sink (walker.accesses p function) := by
  rw [(covers_walk walker p function sink).sink, accessesOn_trace]

theorem walk_events (walker : Walker) (p : IndexedProgram) (function : FunctionId) (sink : σ) :
    (walker.walk p function sink).events = (walker.accesses p function).length := by
  rw [(covers_walk walker p function sink).events, accessesOn_trace, Nat.zero_add]

/-- A walk changes nothing of a walker but what it remembers. -/
theorem walk_walker_cleared (walker : Walker) (p : IndexedProgram) (function : FunctionId)
    (sink : σ) : (walker.walk p function sink).walker.cleared = walker.cleared := by
  rw [(covers_walk walker p function sink).walker]
  rfl

end Walk

theorem walk_list (walker : Walker) (p : IndexedProgram) (function : FunctionId) :
    (walker.walk p function ([] : List Access)).sink = walker.accesses p function := by
  rw [walk_sink, recordAll_list, List.nil_append]

end Walker

end HotFields
