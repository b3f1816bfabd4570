import HotFields.Proofs.TableCounts
import Mathlib.Algebra.BigOperators.Group.List.Basic

namespace HotFields.Table

theorem merged_assoc {a b c : Table} (ha : a.WellFormed) (hb : b.WellFormed) (hc : c.WellFormed) :
    (a.merged b).merged c = a.merged (b.merged c) := by
  have hab := wellFormed_merged ha hb
  have hbc := wellFormed_merged hb hc
  apply (wellFormed_merged hab hc).eq_of_toNat_count_eq (wellFormed_merged ha hbc)
  intro owner field
  rw [count_merged_toNat hab hc, count_merged_toNat ha hb, count_merged_toNat ha hbc, count_merged_toNat hb hc]
  omega

theorem merged_comm {a b : Table} (ha : a.WellFormed) (hb : b.WellFormed) : a.merged b = b.merged a := by
  apply (wellFormed_merged ha hb).eq_of_toNat_count_eq (wellFormed_merged hb ha)
  intro owner field
  rw [count_merged_toNat ha hb, count_merged_toNat hb ha, Nat.add_comm]

theorem empty_merged (t : Table) : empty.merged t = t := rfl

theorem merged_empty {t : Table} (h : t.WellFormed) : t.merged empty = t := by
  rw [merged_comm h wellFormed_empty, empty_merged]

theorem amountIn_perm {buckets others : List (String × FieldCounts)} (h : buckets.Perm others) (owner : String)
    (field : UInt64) : amountIn buckets owner field = amountIn others owner field :=
  (h.map _).sum_eq

/-- The buckets of a table may be added in any order. -/
theorem merge_perm {t u : Table} (ht : t.WellFormed) (hu : u.WellFormed) {buckets : List (String × FieldCounts)}
    (h : buckets.Perm u.buckets) : t.merge ⟨buckets⟩ = t.merge u := by
  have positive : ∀ bucket ∈ buckets, ∀ entry ∈ bucket.2, 0 < entry.2 :=
    fun bucket hb => hu.positive bucket (h.mem_iff.mp hb)
  obtain ⟨hw, hcount⟩ := merge_buckets buckets positive ht
  apply hw.eq_of_toNat_count_eq (wellFormed_merge ht hu)
  intro owner field
  rw [hcount, count_merge_toNat ht hu, amountIn_perm h, hu.amountIn_buckets]

/-- A table that is joined with a copy of itself, a number of times in a row. -/
def doubled (t : Table) : Nat → Table
  | 0 => t
  | n + 1 => (t.doubled n).merged (t.doubled n)

theorem Reachable.doubled {t : Table} (h : t.Reachable) (n : Nat) : (t.doubled n).Reachable := by
  induction n with
  | zero => exact h
  | succ n ih => exact .merged ih ih

/-- Every doubling doubles the counts, until they are full. -/
theorem Reachable.count_doubled_toNat {t : Table} (h : t.Reachable) (n : Nat) (owner : String) (field : UInt64) :
    ((t.doubled n).count owner field).toNat = min (2 ^ 64 - 1) (2 ^ n * (t.count owner field).toNat) := by
  induction n with
  | zero =>
    have bound := UInt64.toNat_lt (t.count owner field)
    change (t.count owner field).toNat = _
    omega
  | succ n ih =>
    have hw := (h.doubled n).wellFormed
    have htwice : 2 ^ (n + 1) * (t.count owner field).toNat = 2 * (2 ^ n * (t.count owner field).toNat) := by
      rw [Nat.pow_succ, Nat.mul_comm (2 ^ n) 2, Nat.mul_assoc]
    change (((t.doubled n).merged (t.doubled n)).count owner field).toNat = _
    rw [count_merged_toNat hw hw, ih, htwice]
    omega

/-- Tables that can come about form a commutative monoid under joining, whatever their counts are, and joining gives what
adding the counts gives, bucket by bucket in any order. Accesses in any order are recorded as the join of the tables of
two lists that they are made up of. -/
theorem merged_laws {a b c : Table} (ha : a.Reachable) (hb : b.Reachable) (hc : c.Reachable) :
    (a.merged b).merged c = a.merged (b.merged c) ∧
    a.merged b = b.merged a ∧
    empty.merged a = a ∧ a.merged empty = a ∧
    a.merged b = a.merge b ∧
    (∀ buckets, buckets.Perm b.buckets → a.merged b = a.merge ⟨buckets⟩) ∧
    ∀ xs ys zs : List Access, zs.Perm (xs ++ ys) → (ofAccesses xs).merged (ofAccesses ys) = ofAccesses zs := by
  have wa := ha.wellFormed
  have wb := hb.wellFormed
  refine ⟨merged_assoc wa wb hc.wellFormed, merged_comm wa wb, empty_merged a, merged_empty wa,
    merged_eq_merge wa wb, ?_, ?_⟩
  · intro buckets h
    rw [merged_eq_merge wa wb, merge_perm wa wb h]
  · intro xs ys zs h
    rw [merged_ofAccesses, ofAccesses_perm h]

/-- A table with one count, which is full after sixty-four doublings. -/
def fullCount : Table := (empty.increment "pair" 1).doubled 64

theorem reachable_fullCount : fullCount.Reachable :=
  (Reachable.increment .empty "pair" 1).doubled 64

theorem count_fullCount : fullCount.count "pair" 1 = 0xFFFFFFFFFFFFFFFF := by
  apply UInt64.toNat_inj.mp
  rw [fullCount, (Reachable.increment .empty "pair" 1).count_doubled_toNat]
  decide

/-- The first join is full already, so that the last one has nothing to add to the count. -/
theorem merged_laws_fullCount :
    let one := empty.record ⟨"pair", 1, .load⟩
    let other := (empty.increment "pair" 1).increment "other" 0
    fullCount.count "pair" 1 = 0xFFFFFFFFFFFFFFFF ∧
    (fullCount.merged one).merged other = fullCount.merged (one.merged other) ∧
    fullCount.merged one = one.merged fullCount ∧
    empty.merged fullCount = fullCount ∧ fullCount.merged empty = fullCount ∧
    fullCount.merged one = fullCount.merge one ∧
    one.merged other = ofAccesses [⟨"pair", 1, .store⟩, ⟨"other", 0, .address⟩, ⟨"pair", 1, .load⟩] := by
  intro one other
  have hone : one.Reachable := .record .empty _
  have hother : other.Reachable := .increment (.increment .empty _ _) _ _
  obtain ⟨assoc, comm, left, right, merge, -, recording⟩ := merged_laws reachable_fullCount hone hother
  have hperm : [⟨"pair", 1, .store⟩, ⟨"other", 0, .address⟩, ⟨"pair", 1, .load⟩].Perm
      ([⟨"pair", 1, .load⟩] ++ [⟨"pair", 1, .store⟩, (⟨"other", 0, .address⟩ : Access)]) := by decide
  exact ⟨count_fullCount, assoc, comm, left, right, merge, recording _ _ _ hperm⟩

end HotFields.Table
