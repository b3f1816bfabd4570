import HotFields.Proofs.CountFormula
import Mathlib.Algebra.Order.BigOperators.Group.Finset

namespace HotFields

/-- Options that look at least as far as others, from the same entry symbol. -/
structure Options.Widens (wide narrow : Options) : Prop where
  entrySymbol : wide.entrySymbol = narrow.entrySymbol
  scope : wide.scope = .allFunctions ∨ wide.scope = narrow.scope
  argumentUses : narrow.traverseArgumentUses = true → wide.traverseArgumentUses = true
  globalOperands : narrow.attributeGlobalOperands = true → wide.attributeGlobalOperands = true
  deduplicate : wide.deduplicate = true → narrow.deduplicate = true

/-- Attributing globals adds to the hits of a position and takes none away. -/
theorem Chain.hitsAt_le_of_imp (p : Program) {few many : Bool} (himp : few = true → many = true)
    (chain : Chain) (owner : String) (field : UInt64) (k : Nat) :
    chain.hitsAt p few owner field k ≤ chain.hitsAt p many owner field k := by
  unfold hitsAt
  split
  next t operand _ _ =>
    split
    next =>
      apply Nat.add_le_add_left
      by_cases hg : few = true ∧ (p.globalType operand).bind p.structName = some owner
      · have hg' : many = true ∧ (p.globalType operand).bind p.structName = some owner :=
          ⟨himp hg.1, hg.2⟩
        rw [if_pos hg, if_pos hg']
      · rw [if_neg hg]
        exact Nat.zero_le _
    next => exact le_rfl
  next => exact le_rfl

theorem Program.hits_le_of_imp (p : Program) {few many : Bool} (himp : few = true → many = true)
    (owner : String) (field : UInt64) (i : InstId) :
    p.hits few owner field i ≤ p.hits many owner field i := by
  unfold hits
  cases p.chainOf i with
  | none => exact le_rfl
  | some chain => exact Finset.sum_le_sum fun k _ => chain.hitsAt_le_of_imp p himp owner field k

theorem ways_le_of_imp (p : IndexedProgram) {narrow wide : Options}
    (himp : narrow.traverseArgumentUses = true → wide.traverseArgumentUses = true)
    (listed : List InstId) : ways p narrow listed ≤ ways p wide listed := by
  unfold ways
  apply add_le_add_right
  split
  next hn => rw [if_pos (himp hn)]
  next => exact Multiset.zero_le _

theorem dedup_le_dedup_of_le {s t : Multiset InstId} (hle : s ≤ t) : s.dedup ≤ t.dedup :=
  Multiset.le_dedup.mpr ⟨(Multiset.dedup_le s).trans hle, Multiset.nodup_dedup s⟩

namespace Options.Widens

variable {wide narrow : Options}

-- With de-duplication a followed use moves the first visit of an instruction, so that no trace begins with
-- the other. The multisets of visits are comparable nevertheless.
theorem reached_le (h : wide.Widens narrow) (p : IndexedProgram) (listed : List InstId) :
    reached p narrow listed ≤ reached p wide listed := by
  have hways := ways_le_of_imp p h.argumentUses listed
  unfold reached
  cases hw : wide.deduplicate with
  | true =>
    have hn := h.deduplicate hw
    rw [if_pos hn, if_pos rfl]
    exact dedup_le_dedup_of_le hways
  | false =>
    rw [if_neg (show ¬false = true by simp)]
    split
    next => exact (Multiset.dedup_le _).trans hways
    next => exact hways

/-- Every root of the narrower scope is one of the wider scope. -/
theorem starts_sublist (h : wide.Widens narrow) (p : Program) :
    (p.starts narrow).Sublist (p.starts wide) := by
  apply List.monotone_filter_right
  intro function hf
  obtain ⟨f, hf, hblocks, hstart⟩ := of_decide_eq_true hf
  refine decide_eq_true ⟨f, hf, hblocks, ?_⟩
  rcases hstart with hname | hscope
  · exact Or.inl (hname.trans h.entrySymbol.symm)
  · rcases h.scope with hall | hsame
    · exact Or.inr hall
    · exact Or.inr (hsame.trans hscope)

/-- More instructions are reached, and each of them has at least as many hits. -/
theorem heatFrom_le (h : wide.Widens narrow) (p : IndexedProgram) (owner : String) (field : UInt64)
    (listed : List InstId) : heatFrom p narrow owner field listed ≤ heatFrom p wide owner field listed := by
  obtain ⟨more, hmore⟩ := Multiset.le_iff_exists_add.mp (h.reached_le p listed)
  have hmono : ((reached p narrow listed).map (p.hits narrow.attributeGlobalOperands owner field)).sum ≤
      ((reached p narrow listed).map (p.hits wide.attributeGlobalOperands owner field)).sum :=
    Multiset.sum_map_le_sum_map _ _ fun i _ => p.hits_le_of_imp h.globalOperands owner field i
  unfold heatFrom
  rw [hmore, Multiset.map_add, Multiset.sum_add]
  exact hmono.trans (Nat.le_add_right _ _)

theorem walkedHeat_le (h : wide.Widens narrow) (p : IndexedProgram) (owner : String) (field : UInt64) :
    walkedHeat p narrow owner field ≤ walkedHeat p wide owner field := by
  have hroots := (h.starts_sublist p.toProgram).map fun root =>
    heatFrom p wide owner field (p.instructionsOf root)
  refine le_trans (List.sum_le_sum fun root _ => h.heatFrom_le p owner field (p.instructionsOf root)) ?_
  exact hroots.sum_le_sum fun n _ => Nat.zero_le n

end Options.Widens

/-- Wider options give a table with every structure and every field of the narrower ones, and no count is
smaller. -/
theorem analyze_within_of_widens (p : IndexedProgram) {wide narrow : Options}
    (h : wide.Widens narrow) : (analyze p narrow).table.Within (analyze p wide).table := by
  rw [analyze_table, analyze_table]
  apply Table.within_ofAccesses
  intro owner field
  rw [occurrences_walkAccesses, occurrences_walkAccesses]
  exact h.walkedHeat_le p owner field

/-- The entry function lists an address computation twice and hands its base to a callee, which uses it through
a global index. Another function with the same use stands beside them. -/
def sharedBase : Program where
  types := #[.int 32, .struct (some "pair") [⟨0⟩, ⟨0⟩], .struct (some "index") [⟨0⟩, ⟨0⟩]]
  globals := #[{ name := "one", valueType := ⟨2⟩, initializer := some 1 }]
  functions := #[{ name := "main", params := 1, blocks := [{ insts := [⟨0⟩, ⟨1⟩] }, { insts := [⟨0⟩] }] },
    { name := "callee", params := 1, blocks := [{ insts := [⟨2⟩] }] },
    { name := "beside", blocks := [{ insts := [⟨2⟩, ⟨0⟩] }] }]
  instructions := #[.gep ⟨1⟩ (.argument ⟨0⟩ 0) [.constInt 0, .constInt 1],
    .call (.direct ⟨1⟩) [.argument ⟨0⟩ 0],
    .gep ⟨1⟩ (.argument ⟨0⟩ 0) [.constInt 0, .global ⟨0⟩]]

theorem analyze_within_of_widens_sharedBase :
    let wide : Options := { scope := .allFunctions, deduplicate := false }
    wide.Widens .baseline ∧
      (analyze sharedBase.index .baseline).table.Within (analyze sharedBase.index wide).table :=
  have h : Options.Widens { scope := .allFunctions, deduplicate := false } .baseline :=
    ⟨rfl, Or.inl rfl, fun _ => rfl, fun _ => rfl, fun _ => rfl⟩
  ⟨h, analyze_within_of_widens sharedBase.index h⟩

end HotFields
