import HotFields.Program.Query
import Mathlib.Data.List.Destutter

namespace HotFields

namespace UseLists

theorem appendUser_idem (users : List InstId) (i : InstId) :
    appendUser (appendUser users i) i = appendUser users i := by
  have hlast : (appendUser users i).getLast? = some i := by
    unfold appendUser
    split
    next h => exact h
    next => simp
  generalize appendUser users i = us at hlast
  simp [appendUser, hlast]

theorem users_cons (v w : Value) (us : List InstId) (rest : UseLists) :
    users ((w, us) :: rest) v = if w = v then us else users rest v := by
  by_cases h : w = v
  · simp [users, h]
  · have hb : (v == w) = false := by simpa using Ne.symm h
    simp [users, List.lookup_cons, h, hb]

/-- One use list is extended, or made, and no other changes. -/
theorem users_add (v w : Value) (i : InstId) (uses : UseLists) :
    (uses.add w i).users v = if w = v then appendUser (uses.users v) i else uses.users v := by
  induction uses with
  | nil =>
    rw [add, users_cons]
    by_cases h : w = v
    · simp [h, users, appendUser]
    · simp [h]
  | cons entry rest ih =>
    obtain ⟨x, us⟩ := entry
    unfold add
    split
    next hx =>
      subst hx
      rw [users_cons, users_cons]
      split <;> rfl
    next hx =>
      rw [users_cons, users_cons, ih]
      by_cases hxv : x = v
      · have hwv : w ≠ v := fun hh => hx (hxv.trans hh.symm)
        simp [hxv, hwv]
      · simp [hxv]

/-- One instruction is noted once, however often it has the operand. -/
theorem users_addOperands {v : Value} (hv : v.isConstInt = false) (i : InstId)
    (operands : List Value) (uses : UseLists) :
    (uses.addOperands i operands).users v =
      if v ∈ operands then appendUser (uses.users v) i else uses.users v := by
  induction operands generalizing uses with
  | nil => simp [addOperands]
  | cons w rest ih =>
    have hstep : uses.addOperands i (w :: rest) =
        (if w.isConstInt then uses else uses.add w i).addOperands i rest := rfl
    rw [hstep, ih]
    by_cases hw : w = v
    · subst hw
      simp [hv, users_add, appendUser_idem]
    · have hother : (if w.isConstInt then uses else uses.add w i).users v = uses.users v := by
        split
        next => rfl
        next => rw [users_add, if_neg hw]
      simp [hother, Ne.symm hw]

/-- Leaving out a user that is the last one already is what removes stutters. -/
theorem foldl_appendUser_append (insts : List InstId) (i : InstId) (users : List InstId) :
    insts.foldl appendUser (users ++ [i]) = users ++ insts.destutter' (· ≠ ·) i := by
  induction insts generalizing i users with
  | nil => rfl
  | cons j rest ih =>
    by_cases hj : i = j
    · have hstep : appendUser (users ++ [i]) j = users ++ [i] := by simp [appendUser, hj]
      rw [List.foldl_cons, hstep, ih, List.destutter'_cons_neg rest (not_not.mpr hj)]
    · have hstep : appendUser (users ++ [i]) j = users ++ [i] ++ [j] := by simp [appendUser, hj]
      rw [List.foldl_cons, hstep, ih, List.destutter'_cons_pos rest hj, List.append_assoc]
      rfl

/-- Only repetitions that stand next to each other are left out. -/
theorem foldl_appendUser (insts : List InstId) :
    insts.foldl appendUser [] = insts.destutter (· ≠ ·) := by
  cases insts with
  | nil => rfl
  | cons i rest => exact foldl_appendUser_append rest i []

theorem mem_destutter'_ne (insts : List InstId) (i j : InstId) :
    j ∈ insts.destutter' (· ≠ ·) i ↔ j = i ∨ j ∈ insts := by
  induction insts generalizing i with
  | nil => simp
  | cons k rest ih =>
    by_cases hk : i = k
    · rw [List.destutter'_cons_neg rest (not_not.mpr hk), ih, List.mem_cons, ← hk]
      simp
    · rw [List.destutter'_cons_pos rest hk, List.mem_cons, ih, List.mem_cons]

theorem mem_foldl_appendUser (insts : List InstId) (j : InstId) :
    j ∈ insts.foldl appendUser [] ↔ j ∈ insts := by
  rw [foldl_appendUser]
  cases insts with
  | nil => rfl
  | cons i rest => rw [List.destutter_cons', mem_destutter'_ne, List.mem_cons]

theorem foldl_appendUser_of_nodup {insts : List InstId} (unique : insts.Nodup) :
    insts.foldl appendUser [] = insts := by
  rw [foldl_appendUser]
  exact List.destutter_of_isChain _ _ (List.Pairwise.isChain unique)

end UseLists

/-- An instruction that exists and has an operand. -/
def Program.mentions (p : Program) (v : Value) (i : InstId) : Bool :=
  match p.instruction? i with
  | none => false
  | some inst => v ∈ inst.operands

/-- Only the instructions with the operand matter to its use list. The induction is on the listing. -/
theorem Program.users_index {v : Value} (hv : v.isConstInt = false) (p : Program) :
    p.index.users v = (p.listing.filter (p.mentions v)).foldl UseLists.appendUser [] := by
  -- one round over a listed instruction touches the list of `v` only if the instruction mentions `v`
  have hrun : ∀ (insts : List InstId) (uses : UseLists),
      (insts.foldl (fun uses i => match p.instruction? i with
        | none => uses
        | some inst => uses.addOperands i inst.operands) uses).users v =
        (insts.filter (p.mentions v)).foldl UseLists.appendUser (uses.users v) := by
    intro insts
    induction insts with
    | nil => exact fun uses => rfl
    | cons i rest ih =>
      intro uses
      rw [List.foldl_cons, ih, List.filter_cons]
      cases hi : p.instruction? i with
      | none => simp [mentions, hi]
      | some inst =>
        by_cases hm : v ∈ inst.operands
        · simp [mentions, hi, hm, UseLists.users_addOperands hv]
        · simp [mentions, hi, hm, UseLists.users_addOperands hv]
  exact hrun p.listing []

theorem Program.mem_users_index {v : Value} (hv : v.isConstInt = false) (p : Program) (i : InstId) :
    i ∈ p.index.users v ↔ i ∈ p.listing ∧ p.mentions v i = true := by
  rw [users_index hv, UseLists.mem_foldl_appendUser, List.mem_filter]

theorem Program.mem_listing_of_mem_users {p : Program} {v : Value} {i : InstId}
    (hv : v.isConstInt = false) (h : i ∈ p.index.users v) : i ∈ p.listing :=
  ((p.mem_users_index hv i).mp h).1

theorem Program.users_index_of_nodup {v : Value} (hv : v.isConstInt = false) {p : Program}
    (unique : p.listing.Nodup) : p.index.users v = p.listing.filter (p.mentions v) := by
  rw [users_index hv, UseLists.foldl_appendUser_of_nodup (unique.filter _)]

end HotFields
