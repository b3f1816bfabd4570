import HotFields.Proofs.ChainPositions

namespace HotFields

/-- Index operands lead from one type to another: each of them is constant, and applies to a type that it leads on
from. -/
inductive Program.Leads (p : Program) : TypeId → List Value → TypeId → Prop
  | stay (t : TypeId) : p.Leads t [] t
  | step {t u v : TypeId} {operand : Value} {index : UInt64} {rest : List Value}
    (constant : p.constantIndex operand = some index) (inner : p.inner t index = some u)
    (onward : p.Leads u rest v) : p.Leads t (operand :: rest) v

namespace Chain

variable {p : Program} {attributeGlobals : Bool} {origin : Origin}

theorem accessesFrom_cons {t : TypeId} {operand : Value} {index : UInt64}
    (constant : p.constantIndex operand = some index) (rest : List Value) :
    accessesFrom p attributeGlobals origin (some t) (operand :: rest) =
      stepAccesses p attributeGlobals origin t operand index ++
        accessesFrom p attributeGlobals origin (p.inner t index) rest := by
  simp only [accessesFrom, constant, p.advance_eq_inner]

theorem accessesFrom_append_of_leads {t u : TypeId} {xs : List Value} (leads : p.Leads t xs u)
    (ys : List Value) :
    accessesFrom p attributeGlobals origin (some t) (xs ++ ys) =
      accessesFrom p attributeGlobals origin (some t) xs ++
        accessesFrom p attributeGlobals origin (some u) ys := by
  induction leads with
  | stay t => rfl
  | step constant inner _ ih =>
    rw [List.cons_append, accessesFrom_cons constant, accessesFrom_cons constant, inner, ih,
      List.append_assoc]

/-- The first operand that is not constant or leads nowhere ends the chain, whatever comes after it. -/
theorem accessesFrom_append_of_not_leads {t : TypeId} {xs : List Value}
    (stuck : ¬∃ u, p.Leads t xs u) (ys : List Value) :
    accessesFrom p attributeGlobals origin (some t) (xs ++ ys) =
      accessesFrom p attributeGlobals origin (some t) xs := by
  induction xs generalizing t with
  | nil => exact absurd ⟨t, .stay t⟩ stuck
  | cons operand rest ih =>
    cases hi : p.constantIndex operand with
    | none => simp only [List.cons_append, accessesFrom, hi]
    | some index =>
      rw [List.cons_append, accessesFrom_cons hi, accessesFrom_cons hi]
      cases hu : p.inner t index with
      | none => rw [accessesFrom_none, accessesFrom_none]
      | some u =>
        have stuck' : ¬∃ v, p.Leads u rest v := by
          rintro ⟨v, onward⟩
          exact stuck ⟨v, .step hi hu onward⟩
        rw [ih stuck']

theorem accessesFrom_prefix (source : TypeId) (xs ys : List Value) :
    accessesFrom p attributeGlobals origin (some source) xs <+:
      accessesFrom p attributeGlobals origin (some source) (xs ++ ys) := by
  by_cases leads : ∃ u, p.Leads source xs u
  · obtain ⟨u, leads⟩ := leads
    rw [accessesFrom_append_of_leads leads ys]
    exact List.prefix_append _ _
  · rw [accessesFrom_append_of_not_leads leads ys]

theorem events_cons (source : TypeId) (first : Value) (rest : List Value) :
    events p attributeGlobals origin ⟨source, first :: rest⟩ =
      accessesFrom p attributeGlobals origin (some source) rest :=
  events_eq_accessesFrom p attributeGlobals origin ⟨source, first :: rest⟩

end Chain

/-- A chain in two pieces: either the first piece leads to a type, and the accesses of the second one from there are
added, whatever operand is put in place of the base index; or it leads nowhere, and nothing is added. So a longer chain
only adds accesses at the end. As many are recorded as are reported. -/
theorem Chain.events_append (p : Program) (attributeGlobals : Bool) (origin : Origin)
    (source : TypeId) (xs ys : List Value) :
    let events := Chain.events p attributeGlobals origin
    (xs ≠ [] →
      (∃ u, p.Leads source xs.tail u ∧ ∀ skipped,
        events ⟨source, xs ++ ys⟩ = events ⟨source, xs⟩ ++ events ⟨u, skipped :: ys⟩) ∨
      ((¬∃ u, p.Leads source xs.tail u) ∧ events ⟨source, xs ++ ys⟩ = events ⟨source, xs⟩)) ∧
    events ⟨source, xs⟩ <+: events ⟨source, xs ++ ys⟩ ∧
    ∀ (σ : Type) [AccessSink σ] (sink : σ),
      let r := Chain.resolve p attributeGlobals origin ⟨source, xs⟩ sink
      r.sink = AccessSink.recordAll sink (events ⟨source, xs⟩) ∧
        r.produced = (events ⟨source, xs⟩).length := by
  intro events
  refine ⟨?_, ?_, ?_⟩
  · intro hne
    obtain ⟨first, rest, rfl⟩ := List.exists_cons_of_ne_nil hne
    by_cases leads : ∃ u, p.Leads source rest u
    · obtain ⟨u, leads⟩ := leads
      refine Or.inl ⟨u, leads, fun skipped => ?_⟩
      simp only [events, List.cons_append, events_cons]
      exact accessesFrom_append_of_leads leads ys
    · refine Or.inr ⟨leads, ?_⟩
      simp only [events, List.cons_append, events_cons]
      exact accessesFrom_append_of_not_leads leads ys
  · cases xs with
    | nil => exact List.nil_prefix
    | cons first rest =>
      simp only [events, List.cons_append, events_cons]
      exact accessesFrom_prefix source rest ys
  · intro σ _ sink
    exact ⟨resolve_sink p attributeGlobals origin _ sink, resolve_produced p attributeGlobals origin _ sink⟩

/-- An array of pairs behind the second field of a structure, and an index that is computed at run time. -/
def pairsInside : Program where
  types := #[.int 32, .struct (some "pair") [⟨0⟩, ⟨0⟩], .array ⟨1⟩ 8, .struct (some "outer") [⟨0⟩, ⟨2⟩]]
  functions := #[{ name := "main", params := 1, blocks := [{ insts := [⟨0⟩] }] }]
  instructions := #[.other "add" [.argument ⟨0⟩ 0]]

/-- The first two operands lead to the array. The computed index leads nowhere. -/
theorem Chain.events_append_pairsInside :
    let events := Chain.events pairsInside true .load
    let inside : List Value := [.constInt 0, .constInt 1]
    let field : List Value := [.constInt 5, .constInt 0]
    let computed : List Value := [.constInt 0, .constInt 1, .inst ⟨0⟩]
    events ⟨⟨3⟩, inside ++ field⟩ = [⟨"outer", 1, .load⟩, ⟨"pair", 0, .load⟩] ∧
    (∃ u, pairsInside.Leads ⟨3⟩ inside.tail u ∧ ∀ skipped,
      events ⟨⟨3⟩, inside ++ field⟩ = events ⟨⟨3⟩, inside⟩ ++ events ⟨u, skipped :: field⟩) ∧
    events ⟨⟨3⟩, computed ++ field⟩ = events ⟨⟨3⟩, computed⟩ := by
  intro events inside field computed
  refine ⟨by decide, ?_, ?_⟩
  · have split := (Chain.events_append pairsInside true .load ⟨3⟩ inside field).1 (by simp [inside])
    have leads : pairsInside.Leads ⟨3⟩ inside.tail ⟨2⟩ := .step rfl rfl (.stay _)
    exact split.resolve_right fun stuck => stuck.1 ⟨_, leads⟩
  · have split := (Chain.events_append pairsInside true .load ⟨3⟩ computed field).1 (by simp [computed])
    have stuck : ¬∃ u, pairsInside.Leads ⟨3⟩ computed.tail u := by
      rintro ⟨u, _ | ⟨_, _, _ | ⟨constant, _, _⟩⟩⟩
      cases constant
    obtain ⟨u, leads, -⟩ | ⟨-, same⟩ := split
    · exact absurd ⟨u, leads⟩ stuck
    · exact same

end HotFields
