import HotFields.Proofs.PassRun
import Mathlib.Data.List.Basic

namespace HotFields

/-- Tables joined into one, two at a time and in any grouping. -/
inductive Table.Joins : List Table → Table → Prop
  | none : Table.Joins [] Table.empty
  | one (t : Table) : Table.Joins [t] t
  | merge {ts us : List Table} {t u : Table} (left : Table.Joins ts t) (right : Table.Joins us u) :
    Table.Joins (ts ++ us) (t.merge u)
  | merged {ts us : List Table} {t u : Table} (left : Table.Joins ts t) (right : Table.Joins us u) :
    Table.Joins (ts ++ us) (t.merged u)

namespace Table

theorem Joins.foldl_merge {ts : List Table} {t : Table} (h : Joins ts t) (us : List Table) :
    Joins (ts ++ us) (us.foldl Table.merge t) := by
  induction us generalizing ts t with
  | nil => simpa using h
  | cons u rest ih =>
    have hh := ih (h.merge (.one u))
    simpa using hh

/-- However tables of accesses are joined, the result is the table of all accesses. -/
theorem Joins.eq_ofAccesses {tables : List Table} {joined : Table} (h : Joins tables joined)
    {lists : List (List Access)} (hlists : tables = lists.map ofAccesses) :
    joined = ofAccesses lists.flatten := by
  induction h generalizing lists with
  | none =>
    have hnil : lists = [] := List.map_eq_nil_iff.mp hlists.symm
    rw [hnil]
    rfl
  | one t =>
    obtain ⟨accesses, rfl, rfl⟩ := List.map_eq_singleton_iff.mp hlists.symm
    rw [List.flatten_singleton]
  | merge _ _ hl hr =>
    obtain ⟨xs, ys, rfl, hx, hy⟩ := List.map_eq_append_iff.mp hlists.symm
    rw [hl hx.symm, hr hy.symm, List.flatten_append, ← merged_ofAccesses,
      merged_eq_merge (wellFormed_ofAccesses _) (wellFormed_ofAccesses _)]
  | merged _ _ hl hr =>
    obtain ⟨xs, ys, rfl, hx, hy⟩ := List.map_eq_append_iff.mp hlists.symm
    rw [hl hx.symm, hr hy.symm, List.flatten_append, merged_ofAccesses]

end Table

/-- Some function with a body has the name. -/
def Program.NamesBody (p : Program) (name : String) : Prop :=
  ∃ function ∈ p.functionIds, ∃ f, p.function? function = some f ∧ f.blocks ≠ [] ∧ f.name = name

/-- The name of a root is among the names of functions with a body. -/
theorem namesBody_of_mem_rootsOf {p : Program} {o : Options} {function : FunctionId}
    (h : function ∈ rootsOf p o) : p.NamesBody (p.functionName function) := by
  obtain ⟨hid, hroot⟩ := List.mem_filter.mp h
  have hbody : p.hasBody function = true := (Bool.and_eq_true_iff.mp hroot).1
  unfold Program.hasBody at hbody
  unfold Program.functionName
  cases hf : p.function? function with
  | none => simp [hf] at hbody
  | some f =>
    have hblocks : f.blocks ≠ [] := by simpa [hf] using hbody
    exact ⟨function, hid, f, hf, hblocks, rfl⟩

theorem rootsOf_entry (p : Program) (o : Options) (name : String) :
    rootsOf p { o with scope := .entry, entrySymbol := name } =
      (rootsOf p { o with scope := .allFunctions }).filter fun f => p.functionName f = name := by
  rw [rootsOf, rootsOf, List.filter_filter]
  apply List.filter_congr
  intro f _
  cases hb : p.hasBody f <;> simp [isRoot, Options.walksAllFunctions, hb, beq_eq_decide]

/-- Distinct keys that cover a list cut it into pieces without loss and without overlap. -/
theorem flatMap_filter_perm {α κ : Type} [DecidableEq κ] {key : α → κ} {keys : List κ}
    (distinct : keys.Nodup) {xs : List α} (covers : ∀ x ∈ xs, key x ∈ keys) :
    (keys.flatMap fun k => xs.filter fun x => key x = k).Perm xs := by
  induction keys generalizing xs with
  | nil =>
    have hnil : xs = [] := List.eq_nil_iff_forall_not_mem.mpr fun x hx => by simpa using covers x hx
    rw [hnil]
    rfl
  | cons k rest ih =>
    obtain ⟨hk, hrest⟩ := List.nodup_cons.mp distinct
    -- the pieces of later keys are pieces of what the first key leaves
    have hlater : (rest.flatMap fun k' => xs.filter fun x => key x = k') =
        rest.flatMap fun k' => (xs.filter fun x => !decide (key x = k)).filter fun x => key x = k' := by
      apply List.flatMap_congr
      intro k' hk'
      have hne : k' ≠ k := fun heq => hk (heq ▸ hk')
      rw [List.filter_filter]
      apply List.filter_congr
      intro x _
      by_cases hx : key x = k'
      · simp [hx, hne]
      · simp [hx]
    have hcovers : ∀ x ∈ xs.filter (fun x => !decide (key x = k)), key x ∈ rest := by
      intro x hx
      obtain ⟨hmem, hne⟩ := List.mem_filter.mp hx
      have hkey := List.mem_cons.mp (covers x hmem)
      exact hkey.resolve_left (by simpa using hne)
    rw [List.flatMap_cons, hlater]
    exact ((ih hrest hcovers).append_left _).trans (List.filter_append_perm _ xs)

/-- The analysis in full scope is any join of the analyses from the single names of functions with a body, taken in any
order. A name that several functions share is taken once, and one without a body adds nothing. -/
theorem analyze_allFunctions_eq_join (p : IndexedProgram) (o : Options) {names : List String}
    (distinct : names.Nodup) (covers : ∀ name, p.NamesBody name → name ∈ names) :
    let whole := (analyze p { o with scope := .allFunctions }).table
    let parts := names.map fun name =>
      (analyze p { o with scope := .entry, entrySymbol := name }).table
    whole = parts.foldl Table.merge Table.empty ∧
      ∀ joined, Table.Joins parts joined → joined = whole := by
  intro whole parts
  let roots := rootsOf p.toProgram { o with scope := .allFunctions }
  let piece := fun name => roots.filter fun f => p.functionName f = name
  have hparts : parts = (names.map fun name => walkAccesses p o (piece name)).map Table.ofAccesses := by
    rw [List.map_map]
    apply List.map_congr_left
    intro name _
    rw [analyze_table, rootsOf_entry]
    rfl
  have hpieces : (names.flatMap piece).Perm roots :=
    flatMap_filter_perm distinct fun f hf => covers _ (namesBody_of_mem_rootsOf hf)
  have hflat : (names.map fun name => walkAccesses p o (piece name)).flatten =
      walkAccesses p o (names.flatMap piece) := by
    rw [walkAccesses, List.flatMap_assoc, List.flatMap_def]
    rfl
  have hjoin : ∀ joined, Table.Joins parts joined → joined = whole := by
    intro joined h
    rw [h.eq_ofAccesses hparts, hflat]
    have hwhole : whole = Table.ofAccesses (walkAccesses p o roots) := analyze_table p _
    rw [hwhole]
    exact Table.ofAccesses_perm (hpieces.flatMap_right _)
  refine ⟨?_, hjoin⟩
  have hfold := Table.Joins.none.foldl_merge parts
  exact (hjoin _ hfold).symm

/-- Two functions of one name and one with the empty name share an address computation. A declaration stands between
them. -/
def namesakes : Program where
  types := #[.int 32, .struct (some "pair") [⟨0⟩, ⟨0⟩]]
  functions := #[{ name := "main", params := 1, blocks := [{ insts := [⟨0⟩, ⟨1⟩] }] },
    { name := "", blocks := [{ insts := [⟨0⟩] }] }, { name := "other" },
    { name := "main", blocks := [{ insts := [⟨0⟩] }] }]
  instructions := #[.gep ⟨1⟩ (.argument ⟨0⟩ 0) [.constInt 0, .constInt 1],
    .gep ⟨1⟩ (.argument ⟨0⟩ 0) [.constInt 0, .constInt 0]]

theorem analyze_allFunctions_eq_join_namesakes :
    let whole := (analyze namesakes.index { scope := .allFunctions }).table
    let main := (analyze namesakes.index {}).table
    let unnamed := (analyze namesakes.index { entrySymbol := "" }).table
    (∀ name, namesakes.NamesBody name → name ∈ ["", "main"]) ∧
    (unnamed.merged Table.empty).merge main = whole ∧
    main.count "pair" 1 = 2 ∧ unnamed.count "pair" 1 = 1 ∧ whole.count "pair" 1 = 3 := by
  intro whole main unnamed
  have covers : ∀ name, namesakes.NamesBody name → name ∈ ["", "main"] := by
    rintro name ⟨function, hid, f, hf, hblocks, rfl⟩
    have hids : function ∈ [(⟨0⟩ : FunctionId), ⟨1⟩, ⟨2⟩, ⟨3⟩] := hid
    simp only [List.mem_cons, List.not_mem_nil, or_false] at hids
    rcases hids with rfl | rfl | rfl | rfl <;> cases hf <;> simp [namesakes] at hblocks ⊢
  have join := (analyze_allFunctions_eq_join namesakes.index {} (by decide) covers).2
  have grouped : Table.Joins [unnamed, main] ((unnamed.merged Table.empty).merge main) :=
    .merge (.merged (.one unnamed) .none) (.one main)
  exact ⟨covers, join _ grouped, by decide, by decide, by decide⟩

end HotFields
