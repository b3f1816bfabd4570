import Mathlib.Algebra.Ring.Nat
import Mathlib.Data.List.Lex

namespace HotFields

def utf8Bytes (s : String) : List UInt8 := s.toUTF8.data.toList

namespace Utf8

/-- A first byte with given leading bits, and a number of groups of six bits. -/
def groups (lead : Nat) : Nat → Nat → List UInt8
  | 0, v => [UInt8.ofNat (v + lead)]
  | k + 1, v => groups lead k (v / 64) ++ [UInt8.ofNat (v % 64 + 128)]

/-- How many bytes follow the first one. -/
def following (v : Nat) : Nat :=
  if v ≤ 0x7F then 0 else if v ≤ 0x7FF then 1 else if v ≤ 0xFFFF then 2 else 3

/-- The leading bits of the first byte, by the number of bytes that follow. -/
def lead : Nat → Nat
  | 0 => 0
  | 1 => 0xC0
  | 2 => 0xE0
  | _ => 0xF0

theorem ofNat_lt {a b : Nat} (hlt : a < b) (hb : b < 256) : UInt8.ofNat a < UInt8.ofNat b :=
  (UInt8.ofNat_lt_iff_lt (Nat.lt_trans hlt hb) hb).mpr hlt

theorem groups_eq_cons (lead k v : Nat) :
    ∃ rest, groups lead k v = UInt8.ofNat (v / 64 ^ k + lead) :: rest := by
  induction k generalizing v with
  | zero => exact ⟨[], by simp [groups]⟩
  | succ k ih =>
    obtain ⟨rest, hrest⟩ := ih (v / 64)
    refine ⟨rest ++ [UInt8.ofNat (v % 64 + 128)], ?_⟩
    rw [groups, hrest, Nat.div_div_eq_div_mul, Nat.pow_succ, Nat.mul_comm 64]
    rfl

/-- Of two encodings of one length the one of the smaller number comes first, whatever follows. -/
theorem groups_lt {lead k v w : Nat} (hlt : v < w) (fits : w / 64 ^ k + lead < 256) (xs ys : List UInt8) :
    groups lead k v ++ xs < groups lead k w ++ ys := by
  induction k generalizing v w xs ys with
  | zero =>
    simp only [Nat.pow_zero, Nat.div_one] at fits
    exact List.Lex.rel (ofNat_lt (by omega) fits)
  | succ k ih =>
    have hfits : w / 64 / 64 ^ k + lead < 256 := by
      rwa [Nat.div_div_eq_div_mul, Nat.mul_comm, ← Nat.pow_succ]
    have hdigits : v / 64 < w / 64 ∨ v / 64 = w / 64 ∧ v % 64 < w % 64 := by omega
    rw [groups, groups, List.append_assoc, List.append_assoc]
    rcases hdigits with hhigh | ⟨hsame, hlow⟩
    · exact ih hhigh hfits _ _
    · rw [hsame]
      exact List.append_left_lt (List.Lex.rel (ofNat_lt (by omega) (by omega)))

theorem val_lt (c : Char) : c.val.toNat < 0x110000 := by
  rcases c.valid with low | ⟨_, high⟩
  · exact Nat.lt_trans low (by decide)
  · exact high

theorem following_cases (v : Nat) :
    following v = 0 ∧ v ≤ 0x7F ∨ following v = 1 ∧ 0x7F < v ∧ v ≤ 0x7FF ∨
      following v = 2 ∧ 0x7FF < v ∧ v ≤ 0xFFFF ∨ following v = 3 ∧ 0xFFFF < v := by
  unfold following
  split
  next => exact .inl ⟨rfl, by omega⟩
  split
  next => exact .inr (.inl ⟨rfl, by omega⟩)
  split
  next => exact .inr (.inr (.inl ⟨rfl, by omega⟩))
  next => exact .inr (.inr (.inr ⟨rfl, by omega⟩))

/-- The four lengths of an encoding are one formula, with the number of following bytes as its parameter. -/
theorem encodeChar_eq_groups (c : Char) :
    String.utf8EncodeChar c = groups (lead (following c.val.toNat)) (following c.val.toNat) c.val.toNat := by
  have bound := val_lt c
  generalize hv : c.val.toNat = v at bound
  simp only [String.utf8EncodeChar, hv]
  rcases following_cases v with ⟨hk, h0⟩ | ⟨hk, h0, h1⟩ | ⟨hk, h0, h1⟩ | ⟨hk, h0⟩
  · rw [hk, if_pos h0]
    rfl
  · have hfirst : v / 64 % 32 = v / 64 := Nat.mod_eq_of_lt (by omega)
    rw [hk, if_neg (by omega), if_pos h1, hfirst]
    rfl
  · have hfirst : v / 4096 % 16 = v / 64 / 64 := by omega
    rw [hk, if_neg (by omega), if_neg (by omega), if_pos h1, hfirst]
    rfl
  · have hfirst : v / 262144 % 8 = v / 64 / 64 / 64 := by omega
    have hsecond : v / 4096 % 64 = v / 64 / 64 % 64 := by omega
    rw [hk, if_neg (by omega), if_neg (by omega), if_neg (by omega), hfirst, hsecond]
    rfl

theorem first_fits {v : Nat} (bound : v < 0x110000) : v / 64 ^ following v + lead (following v) < 256 := by
  rcases following_cases v with ⟨hk, hv⟩ | ⟨hk, hv⟩ | ⟨hk, hv⟩ | ⟨hk, hv⟩
  all_goals
    simp only [hk, lead]
    omega

/-- Longer encodings have larger first bytes. -/
theorem first_lt {v w : Nat} (hlt : v < w) (hne : following v ≠ following w) :
    v / 64 ^ following v + lead (following v) < w / 64 ^ following w + lead (following w) := by
  rcases following_cases v with ⟨hk, hv⟩ | ⟨hk, hv⟩ | ⟨hk, hv⟩ | ⟨hk, hv⟩
  all_goals
    rcases following_cases w with ⟨hk', hw⟩ | ⟨hk', hw⟩ | ⟨hk', hw⟩ | ⟨hk', hw⟩
    all_goals
      simp only [hk, hk', lead] at hne ⊢
      omega

/-- Of two characters with encodings of different lengths the first byte decides, of others the first group that
differs. -/
theorem encodeChar_lt {c d : Char} (h : c < d) (xs ys : List UInt8) :
    String.utf8EncodeChar c ++ xs < String.utf8EncodeChar d ++ ys := by
  have hlt : c.val.toNat < d.val.toNat := h
  have fits := first_fits (val_lt d)
  rw [encodeChar_eq_groups, encodeChar_eq_groups]
  by_cases hk : following c.val.toNat = following d.val.toNat
  · rw [hk]
    exact groups_lt hlt fits xs ys
  · obtain ⟨crest, hc⟩ := groups_eq_cons (lead (following c.val.toNat)) (following c.val.toNat) c.val.toNat
    obtain ⟨drest, hd⟩ := groups_eq_cons (lead (following d.val.toNat)) (following d.val.toNat) d.val.toNat
    rw [hc, hd]
    exact List.Lex.rel (ofNat_lt (first_lt hlt hk) fits)

/-- The first characters that differ decide, and what follows them does not matter. -/
theorem flatMap_encodeChar_lt {cs ds : List Char} (h : cs < ds) :
    cs.flatMap String.utf8EncodeChar < ds.flatMap String.utf8EncodeChar := by
  induction h with
  | nil =>
    rename_i d ds
    obtain ⟨rest, hd⟩ := groups_eq_cons (lead (following d.val.toNat)) (following d.val.toNat) d.val.toNat
    rw [List.flatMap_nil, List.flatMap_cons, encodeChar_eq_groups, hd]
    exact List.Lex.nil
  | rel hlt => exact encodeChar_lt hlt _ _
  | cons _ ih => exact List.append_left_lt ih

end Utf8

theorem utf8Bytes_eq_flatMap (s : String) : utf8Bytes s = s.toList.flatMap String.utf8EncodeChar := by
  have hs : s.toUTF8 = (s.toList.flatMap String.utf8EncodeChar).toByteArray := by
    conv_lhs => rw [← String.ofList_toList (s := s)]
    rfl
  rw [utf8Bytes, hs, List.toList_data_toByteArray]

theorem utf8Bytes_lt {s t : String} (h : s < t) : utf8Bytes s < utf8Bytes t := by
  rw [utf8Bytes_eq_flatMap, utf8Bytes_eq_flatMap]
  exact Utf8.flatMap_encodeChar_lt (String.lt_iff.mp h)

end HotFields
