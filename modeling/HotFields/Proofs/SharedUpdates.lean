import HotFields.Proofs.TableCounts
import Mathlib.Algebra.BigOperators.Group.List.Basic
import Mathlib.Logic.Relation

namespace HotFields

/-- A step of a client, taken on a table of its own. -/
def Table.perform (t : Table) : SharedTable.Step → Table
  | .increment owner field => t.increment owner field
  | .record a => t.record a
  | .absorb part => t.merge part

namespace SharedTable

theorem step_contents (s : SharedTable) (step : Step) :
    (s.step step).contents = s.contents.perform step := by
  cases step <;> rfl

/-- What a step adds to a count: one access, or the count in the absorbed table. -/
def Step.amount (owner : String) (field : UInt64) : Step → Nat
  | .increment name place => if name = owner ∧ place = field then 1 else 0
  | .record a => if a.owner = owner ∧ a.field = field then 1 else 0
  | .absorb part => (part.count owner field).toNat

/-- The step absorbs no table that could not have come about. -/
def Step.Sound : Step → Prop
  | .absorb part => part.Reachable
  | _ => True

/-- One step adds its amount to every count, up to the largest number. -/
theorem perform_spec {t : Table} (h : t.WellFormed) {step : Step} (sound : step.Sound) :
    (t.perform step).WellFormed ∧ ∀ owner field, ((t.perform step).count owner field).toNat =
      min (2 ^ 64 - 1) ((t.count owner field).toNat + step.amount owner field) := by
  cases step with
  | increment name place =>
    refine ⟨Table.wellFormed_add h name place (by decide), fun owner field => ?_⟩
    exact Table.count_add_toNat h name owner place field 1
  | record a =>
    refine ⟨Table.wellFormed_record h a, fun owner field => ?_⟩
    exact Table.count_add_toNat h a.owner owner a.field field 1
  | absorb part =>
    have hpart := Table.Reachable.wellFormed sound
    exact ⟨Table.wellFormed_merge h hpart, Table.count_merge_toNat h hpart⟩

theorem foldl_perform_spec {steps : List Step} (sound : ∀ step ∈ steps, step.Sound) {t : Table}
    (h : t.WellFormed) :
    (steps.foldl Table.perform t).WellFormed ∧
      ∀ owner field, ((steps.foldl Table.perform t).count owner field).toNat =
        min (2 ^ 64 - 1) ((t.count owner field).toNat + (steps.map (Step.amount owner field)).sum) := by
  have run := fun owner field => foldl_min_add Table.WellFormed (fun t => (t.count owner field).toNat)
    (Step.amount owner field) (fun t => t.count_le owner field)
    (fun step hs t ht => (perform_spec ht (sound step hs)).imp_right fun counts => counts owner field) h
  exact ⟨(run "" 0).1, fun owner field => (run owner field).2⟩

/-- Saturating additions commute, so that the order of steps does not show. -/
theorem foldl_perform_perm {steps others : List Step} (sound : ∀ step ∈ steps, step.Sound)
    (h : steps.Perm others) :
    steps.foldl Table.perform Table.empty = others.foldl Table.perform Table.empty := by
  obtain ⟨hw, hcount⟩ := foldl_perform_spec sound Table.wellFormed_empty
  obtain ⟨hw', hcount'⟩ := foldl_perform_spec (fun s hs => sound s (h.mem_iff.mpr hs))
    Table.wellFormed_empty
  apply hw.eq_of_toNat_count_eq hw'
  intro owner field
  rw [hcount, hcount', (h.map (Step.amount owner field)).sum_eq]

/-- Clients that share a table, each with the steps that it has still to take. -/
structure Session where
  shared : SharedTable
  clients : List (List Step)

namespace Session

def start (clients : List (List Step)) : Session where
  shared := {}
  clients := clients

/-- One of the clients takes its next step. -/
inductive Next : Session → Session → Prop
  | step (shared : SharedTable) (before after : List (List Step)) (step : Step) (rest : List Step) :
    Next ⟨shared, before ++ (step :: rest) :: after⟩ ⟨shared.step step, before ++ rest :: after⟩

/-- Any number of steps, by any of the clients in turn. -/
abbrev Run : Session → Session → Prop := Relation.ReflTransGen Next

/-- No client has a step left. -/
def Done (s : Session) : Prop := ∀ client ∈ s.clients, client = []

theorem Next.taken {s s' : Session} (h : Next s s') :
    ∃ step, s'.shared = s.shared.step step ∧ (step :: s'.clients.flatten).Perm s.clients.flatten := by
  cases h with
  | step shared before after step rest =>
    refine ⟨step, rfl, ?_⟩
    have moved : (step :: (before.flatten ++ (rest ++ after.flatten))).Perm
        (before.flatten ++ step :: (rest ++ after.flatten)) := List.perm_middle.symm
    simpa using moved

/-- A run takes every step that is no longer left, once. -/
theorem Run.taken {s s' : Session} (h : Run s s') :
    ∃ steps, s'.shared.contents = steps.foldl Table.perform s.shared.contents ∧
      (steps ++ s'.clients.flatten).Perm s.clients.flatten := by
  induction h with
  | refl => exact ⟨[], rfl, List.Perm.refl _⟩
  | tail _ hnext ih =>
    obtain ⟨steps, hcontents, hleft⟩ := ih
    obtain ⟨step, hshared, htaken⟩ := hnext.taken
    refine ⟨steps ++ [step], ?_, ?_⟩
    · rw [hshared, step_contents, hcontents, List.foldl_append]
      rfl
    · rw [List.append_assoc]
      exact (htaken.append_left steps).trans hleft

/-- Nothing holds the clients up: every session can go on until all of them have finished. -/
theorem exists_run_done (s : Session) : ∃ last, Run s last ∧ last.Done := by
  induction hn : s.clients.flatten.length generalizing s with
  | zero => exact ⟨s, .refl, List.flatten_eq_nil_iff.mp (List.length_eq_zero_iff.mp hn)⟩
  | succ n ih =>
    obtain ⟨step, hstep⟩ := List.exists_mem_of_length_eq_add_one hn
    obtain ⟨client, hclient, hstep⟩ := List.mem_flatten.mp hstep
    obtain ⟨step, rest, rfl⟩ := List.exists_cons_of_ne_nil (List.ne_nil_of_mem hstep)
    obtain ⟨before, after, hclients⟩ := List.append_of_mem hclient
    have next : Next s ⟨s.shared.step step, before ++ rest :: after⟩ := by
      cases s
      cases hclients
      exact .step _ before after step rest
    obtain ⟨_, _, htaken⟩ := next.taken
    have hlength := htaken.length_eq
    rw [List.length_cons, hn] at hlength
    obtain ⟨last, hrun, hdone⟩ := ih _ (Nat.succ.inj hlength)
    exact ⟨last, .head next hrun, hdone⟩

/-- All that the clients add to a count. -/
def demand (clients : List (List Step)) (owner : String) (field : UInt64) : Nat :=
  (clients.map fun client => (client.map (Step.amount owner field)).sum).sum

theorem demand_eq_sum (clients : List (List Step)) (owner : String) (field : UInt64) :
    demand clients owner field = (clients.flatten.map (Step.amount owner field)).sum := by
  rw [List.map_flatten, List.sum_flatten, List.map_map]
  rfl

/-- Clients that have all finished have taken all their steps, in some order. -/
theorem Run.taken_all {clients : List (List Step)} {last : Session} (run : Run (start clients) last)
    (done : last.Done) :
    ∃ steps : List Step, last.shared.contents = steps.foldl Table.perform Table.empty ∧
      steps.Perm clients.flatten := by
  obtain ⟨steps, hcontents, htaken⟩ := run.taken
  have hnone : last.clients.flatten = [] := List.flatten_eq_nil_iff.mpr done
  rw [hnone, List.append_nil] at htaken
  exact ⟨steps, hcontents, htaken⟩

/-- Clients can always finish, and once they have, the table has every count that they add to it, up to the largest
64 bit number, and nothing else. It is the table that they make one after another, in any order. -/
theorem run_contents_eq {clients : List (List Step)}
    (sound : ∀ client ∈ clients, ∀ step ∈ client, step.Sound) :
    (∃ last, Run (start clients) last ∧ last.Done) ∧
    ∀ last, Run (start clients) last → last.Done →
      (∀ owner field,
        (last.shared.contents.count owner field).toNat = min (2 ^ 64 - 1) (demand clients owner field) ∧
          (last.shared.contents.Present owner field ↔ 0 < demand clients owner field)) ∧
      (∀ owner, owner ∈ last.shared.contents.structures ↔ ∃ field, 0 < demand clients owner field) ∧
      ∀ order : List (List Step), order.Perm clients → last.shared.contents =
        order.foldl (fun t client => client.foldl Table.perform t) Table.empty := by
  refine ⟨exists_run_done _, fun last run done => ?_⟩
  obtain ⟨steps, hcontents, htaken⟩ := run.taken_all done
  have hsound : ∀ step ∈ steps, step.Sound := by
    intro step hs
    obtain ⟨client, hclient, hstep⟩ := List.mem_flatten.mp (htaken.mem_iff.mp hs)
    exact sound client hclient step hstep
  obtain ⟨hwell, hcounts⟩ := foldl_perform_spec hsound Table.wellFormed_empty
  rw [hcontents]
  have hcount : ∀ owner field, ((steps.foldl Table.perform Table.empty).count owner field).toNat =
      min (2 ^ 64 - 1) (demand clients owner field) := by
    intro owner field
    rw [hcounts, Table.count_empty, UInt64.toNat_zero, Nat.zero_add, demand_eq_sum,
      (htaken.map (Step.amount owner field)).sum_eq]
  have hpresent : ∀ owner field, (steps.foldl Table.perform Table.empty).Present owner field ↔
      0 < demand clients owner field := by
    intro owner field
    rw [hwell.present_iff_count_pos, hcount]
    omega
  refine ⟨fun owner field => ⟨hcount owner field, hpresent owner field⟩, ?_, ?_⟩
  · intro owner
    simp only [hwell.mem_structures_iff, hpresent]
  · intro order horder
    have hall : steps.Perm order.flatten := htaken.trans horder.symm.flatten
    rw [← List.foldl_flatten]
    exact foldl_perform_perm hsound hall

/-- Two clients on one field. The first one also brings a table of its own. -/
def countingClients : List (List Step) :=
  [[.increment "pair" 1, .absorb ((Table.empty.increment "pair" 1).increment "other" 0)],
    [.record ⟨"pair", 1, .load⟩, .increment "pair" 0]]

/-- The second client begins, and the first one ends. -/
theorem run_contents_eq_countingClients :
    ∃ last : Session, Run (start countingClients) last ∧ last.Done ∧
      last.shared.contents.count "pair" 1 = 3 ∧
      last.shared.contents =
        countingClients.reverse.foldl (fun t client => client.foldl Table.perform t) Table.empty := by
  have run : Run (start countingClients) ⟨_, [[], []]⟩ :=
    .head (.step _ [_] [] _ _) (.head (.step _ [] [_] _ _) (.head (.step _ [_] [] _ _)
      (.head (.step _ [] [_] _ _) .refl)))
  have done : ∀ shared, Session.Done ⟨shared, [[], []]⟩ := by simp [Session.Done]
  have sound : ∀ client ∈ countingClients, ∀ step ∈ client, step.Sound := by
    simp only [countingClients, List.forall_mem_cons, Step.Sound]
    exact ⟨⟨trivial, .increment (.increment .empty _ _) _ _, by simp⟩, ⟨trivial, trivial, by simp⟩, by simp⟩
  have contents := (run_contents_eq sound).2 _ run (done _)
  exact ⟨_, run, done _, by decide, contents.2.2 _ (List.reverse_perm _)⟩

end Session

end SharedTable

end HotFields
