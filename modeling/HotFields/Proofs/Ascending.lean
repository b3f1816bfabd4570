import HotFields.Analysis.Table
import Mathlib.Algebra.Order.BigOperators.Group.List
import Mathlib.Algebra.Order.Ring.Nat

namespace HotFields.Ascending

variable {κ α : Type}

theorem find?_cons [DecidableEq κ] (key k : κ) (v : α) (rest : List (κ × α)) :
    find? key ((k, v) :: rest) = if key = k then some v else find? key rest := by
  by_cases h : key = k
  · simp [find?, h]
  · have hb : (key == k) = false := by simpa using h
    simp [find?, List.lookup_cons, h, hb]

/-- A change at one key shows at no other, in whatever order the entries are. -/
theorem find?_alter_of_ne [LT κ] [DecidableLT κ] [DecidableEq κ] {key other : κ}
    (f : Option α → α) (entries : List (κ × α)) (hne : other ≠ key) :
    find? other (alter key f entries) = find? other entries := by
  induction entries with
  | nil => simp [alter, hne, find?]
  | cons e rest ih =>
    obtain ⟨k, v⟩ := e
    unfold alter
    split
    next => rw [find?_cons, if_neg hne]
    next =>
      split
      next heq => subst heq; simp only [find?_cons, if_neg hne]
      next => simp only [find?_cons, ih]

theorem alter_ne_nil [LT κ] [DecidableLT κ] [DecidableEq κ] (key : κ) (f : Option α → α)
    (entries : List (κ × α)) : alter key f entries ≠ [] := by
  cases entries with
  | nil => simp [alter]
  | cons e rest =>
    unfold alter
    split
    next => simp
    next => split <;> simp

/-- Keys stand in strictly ascending order. -/
def Sorted [LT κ] (entries : List (κ × α)) : Prop :=
  entries.Pairwise fun a b => a.1 < b.1

theorem lt_of_lt_head [LE κ] [LT κ] [Std.IsLinearOrder κ] [Std.LawfulOrderLT κ] {key k : κ} {v : α}
    {rest : List (κ × α)} (sorted : Sorted ((k, v) :: rest)) (hlt : key < k) :
    ∀ e ∈ (k, v) :: rest, key < e.1 := by
  intro e he
  rcases List.mem_cons.mp he with rfl | he
  · exact hlt
  · exact Std.lt_trans hlt ((List.pairwise_cons.mp sorted).1 e he)

section LinearOrder

variable [LE κ] [LT κ] [DecidableEq κ] [Std.LawfulOrderLT κ]

theorem find?_eq_none_of_lt {key : κ} {entries : List (κ × α)} (above : ∀ e ∈ entries, key < e.1) :
    find? key entries = none := by
  induction entries with
  | nil => rfl
  | cons e rest ih =>
    obtain ⟨k, v⟩ := e
    have hk : key ≠ k := Std.ne_of_lt (above (k, v) (by simp))
    rw [find?_cons, if_neg hk]
    exact ih fun e he => above e (by simp [he])

/-- With ascending keys every entry is the one that a look-up of its key finds. -/
theorem find?_eq_some_iff_mem {entries : List (κ × α)} (sorted : Sorted entries) {key : κ} {v : α} :
    find? key entries = some v ↔ (key, v) ∈ entries := by
  induction entries with
  | nil => simp [find?]
  | cons e rest ih =>
    obtain ⟨k, w⟩ := e
    obtain ⟨above, hrest⟩ := List.pairwise_cons.mp sorted
    rw [find?_cons, List.mem_cons]
    by_cases hk : key = k
    · subst hk
      have absent : (key, v) ∉ rest := fun hm => Std.lt_irrefl (above (key, v) hm)
      simp [absent, eq_comm]
    · simp [hk, ih hrest]

/-- A sum over the entries of one key has at most one summand. -/
theorem sum_of_key {entries : List (κ × α)} (sorted : Sorted entries) (key : κ) (weight : α → Nat) :
    (entries.map fun e => if e.1 = key then weight e.2 else 0).sum =
      (find? key entries).elim 0 weight := by
  induction entries with
  | nil => rfl
  | cons e rest ih =>
    obtain ⟨k, v⟩ := e
    obtain ⟨above, hrest⟩ := List.pairwise_cons.mp sorted
    rw [List.map_cons, List.sum_cons, ih hrest, find?_cons]
    by_cases hk : key = k
    · subst hk
      simp [find?_eq_none_of_lt above]
    · simp [hk, Ne.symm hk]

theorem weight_le_sum {entries : List (κ × α)} (sorted : Sorted entries) (key : κ) (weight : α → Nat) :
    (find? key entries).elim 0 weight ≤ (entries.map fun e => weight e.2).sum := by
  cases hf : find? key entries with
  | none => exact Nat.zero_le _
  | some v =>
    have hmem := (find?_eq_some_iff_mem sorted).mp hf
    exact List.le_sum_of_mem (List.mem_map_of_mem (f := fun e => weight e.2) hmem)

variable [Std.IsLinearOrder κ]

/-- Look-ups tell ascending lists apart. -/
theorem eq_of_find?_eq {xs ys : List (κ × α)} (hx : Sorted xs) (hy : Sorted ys)
    (same : ∀ key, find? key xs = find? key ys) : xs = ys := by
  have nodup : ∀ {zs : List (κ × α)}, Sorted zs → zs.Nodup := by
    intro zs hz
    apply hz.imp
    rintro a b hlt rfl
    exact Std.lt_irrefl hlt
  have perm : xs.Perm ys := by
    apply (List.perm_ext_iff_of_nodup (nodup hx) (nodup hy)).mpr
    rintro ⟨key, v⟩
    rw [← find?_eq_some_iff_mem hx, ← find?_eq_some_iff_mem hy, same]
  exact perm.eq_of_pairwise (fun a b _ _ hab hba => absurd (Std.lt_trans hab hba) Std.lt_irrefl) hx hy

variable [DecidableLT κ]

/-- An entry after a change is the changed one or was there before. -/
theorem mem_alter {key : κ} {f : Option α → α} {entries : List (κ × α)} (sorted : Sorted entries)
    {e : κ × α} (h : e ∈ alter key f entries) :
    e = (key, f (find? key entries)) ∨ e ∈ entries := by
  induction entries with
  | nil => simpa [alter, find?] using h
  | cons e' rest ih =>
    obtain ⟨k, v⟩ := e'
    obtain ⟨above, hrest⟩ := List.pairwise_cons.mp sorted
    unfold alter at h
    split at h
    next hlt =>
      rw [find?_eq_none_of_lt (lt_of_lt_head sorted hlt)]
      exact List.mem_cons.mp h
    next =>
      split at h
      next heq =>
        subst heq
        rw [find?_cons, if_pos rfl]
        exact (List.mem_cons.mp h).imp_right (List.mem_cons_of_mem _)
      next hne =>
        rw [find?_cons, if_neg hne]
        rcases List.mem_cons.mp h with rfl | h
        · exact Or.inr (by simp)
        · exact (ih hrest h).imp_right (List.mem_cons_of_mem _)

/-- The order is needed here: a change stops at the first larger key, and behind that the key must not occur. -/
theorem find?_alter_self (key : κ) (f : Option α → α) {entries : List (κ × α)}
    (sorted : Sorted entries) :
    find? key (alter key f entries) = some (f (find? key entries)) := by
  induction entries with
  | nil => simp [alter, find?]
  | cons e rest ih =>
    obtain ⟨k, v⟩ := e
    obtain ⟨above, hrest⟩ := List.pairwise_cons.mp sorted
    unfold alter
    split
    next hlt =>
      rw [find?_eq_none_of_lt (lt_of_lt_head sorted hlt), find?_cons, if_pos rfl]
    next =>
      split
      next heq => subst heq; simp only [find?_cons, if_pos]
      next hne => simp only [find?_cons, if_neg hne, ih hrest]

/-- The induction follows the three ways to put an entry in: before, at or behind the first one. -/
theorem sorted_alter (key : κ) (f : Option α → α) {entries : List (κ × α)}
    (sorted : Sorted entries) : Sorted (alter key f entries) := by
  induction entries with
  | nil => simp [alter, Sorted]
  | cons e rest ih =>
    obtain ⟨k, v⟩ := e
    obtain ⟨above, hrest⟩ := List.pairwise_cons.mp sorted
    unfold alter
    split
    next hlt => exact List.pairwise_cons.mpr ⟨lt_of_lt_head sorted hlt, sorted⟩
    next hge =>
      split
      next => exact List.pairwise_cons.mpr ⟨above, hrest⟩
      next hne =>
        refine List.pairwise_cons.mpr ⟨?_, ih hrest⟩
        intro e he
        rcases mem_alter hrest he with rfl | he
        · rcases Std.lt_trichotomy key k with hlt | heq | hgt
          · exact absurd hlt hge
          · exact absurd heq hne
          · exact hgt
        · exact above e he

/-- A change puts the weight of the new value in place of that of the old one. -/
theorem sum_alter (key : κ) (f : Option α → α) {entries : List (κ × α)} (sorted : Sorted entries)
    (weight : α → Nat) :
    ((alter key f entries).map fun e => weight e.2).sum + (find? key entries).elim 0 weight =
      (entries.map fun e => weight e.2).sum + weight (f (find? key entries)) := by
  induction entries with
  | nil => simp [alter, find?]
  | cons e rest ih =>
    obtain ⟨k, v⟩ := e
    have hrest := (List.pairwise_cons.mp sorted).2
    unfold alter
    split
    next hlt =>
      rw [find?_eq_none_of_lt (lt_of_lt_head sorted hlt)]
      simp only [List.map_cons, List.sum_cons, Option.elim_none]
      omega
    next =>
      split
      next heq =>
        subst heq
        simp only [find?_cons, if_true, List.map_cons, List.sum_cons, Option.elim_some]
        omega
      next hne =>
        have step := ih hrest
        simp only [find?_cons, if_neg hne, List.map_cons, List.sum_cons]
        omega

end LinearOrder

end HotFields.Ascending
