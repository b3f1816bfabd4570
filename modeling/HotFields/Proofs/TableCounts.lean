import HotFields.Proofs.Ascending

namespace HotFields

/-- Over natural numbers the addition is a minimum, which is where its laws come from. -/
theorem saturatingAdd_toNat (a b : UInt64) :
    (saturatingAdd a b).toNat = min (2 ^ 64 - 1) (a.toNat + b.toNat) := by
  have hsize : UInt64.size = 2 ^ 64 := rfl
  unfold saturatingAdd
  rw [hsize]
  split
  next hlt =>
    rw [UInt64.toNat_add, Nat.mod_eq_of_lt hlt]
    omega
  next hge =>
    have : (0xFFFFFFFFFFFFFFFF : UInt64).toNat = 2 ^ 64 - 1 := rfl
    omega

/-- A fold whose steps each add a share to a bounded measure adds all shares to it, up to the bound. -/
theorem foldl_min_add {S α : Type} (Inv : S → Prop) (measure : S → Nat) (share : α → Nat) {step : S → α → S}
    {bound : Nat} (small : ∀ s, measure s ≤ bound) {as : List α}
    (hstep : ∀ a ∈ as, ∀ s, Inv s → Inv (step s a) ∧ measure (step s a) = min bound (measure s + share a))
    {s : S} (h : Inv s) :
    Inv (as.foldl step s) ∧ measure (as.foldl step s) = min bound (measure s + (as.map share).sum) := by
  induction as generalizing s with
  | nil =>
    have hs := small s
    refine ⟨h, ?_⟩
    simp only [List.foldl_nil, List.map_nil, List.sum_nil]
    omega
  | cons a rest ih =>
    obtain ⟨hkeeps, hone⟩ := hstep a (by simp) s h
    obtain ⟨hinv, hmany⟩ := ih (fun b hb => hstep b (by simp [hb])) hkeeps
    refine ⟨hinv, ?_⟩
    rw [List.foldl_cons, hmany, hone, List.map_cons, List.sum_cons]
    omega

namespace Table

/-- Names and fields ascend, no structure is without fields, and no count is zero. -/
structure WellFormed (t : Table) : Prop where
  names : Ascending.Sorted t.buckets
  fields : ∀ bucket ∈ t.buckets, Ascending.Sorted bucket.2
  inhabited : ∀ bucket ∈ t.buckets, bucket.2 ≠ []
  positive : ∀ bucket ∈ t.buckets, ∀ entry ∈ bucket.2, 0 < entry.2

/-- The count that is kept for a field, if there is one. -/
def stored (t : Table) (owner : String) (field : UInt64) : Option UInt64 :=
  (t.fields? owner).bind (Ascending.find? field)

theorem count_eq_stored (t : Table) (owner : String) (field : UInt64) :
    t.count owner field = (t.stored owner field).getD 0 := rfl

theorem wellFormed_empty : empty.WellFormed where
  names := List.Pairwise.nil
  fields := by simp [empty]
  inhabited := by simp [empty]
  positive := by simp [empty]

theorem count_empty (owner : String) (field : UInt64) : empty.count owner field = 0 := rfl

theorem WellFormed.sorted_fields? {t : Table} (h : t.WellFormed) (owner : String) :
    Ascending.Sorted ((t.fields? owner).getD []) := by
  cases hf : t.fields? owner with
  | none => exact List.Pairwise.nil
  | some counts => exact h.fields (owner, counts) ((Ascending.find?_eq_some_iff_mem h.names).mp hf)

theorem count_eq_find? (t : Table) (owner : String) (field : UInt64) :
    t.count owner field = (Ascending.find? field ((t.fields? owner).getD [])).getD 0 := by
  unfold count
  cases t.fields? owner <;> rfl

/-- A count that is added to is stored, even if the amount is zero; no other entry changes. -/
theorem stored_add {t : Table} (h : t.WellFormed) (owner other : String)
    (field place amount : UInt64) :
    (t.add owner field amount).stored other place =
      if other = owner ∧ place = field then some (saturatingAdd (t.count owner field) amount)
      else t.stored other place := by
  by_cases ho : other = owner
  · subst ho
    have hsome : (t.add other field amount).fields? other = some (Ascending.alter field
        (fun count => saturatingAdd (count.getD 0) amount) ((t.fields? other).getD [])) :=
      Ascending.find?_alter_self _ _ h.names
    rw [stored, hsome, Option.bind_some]
    by_cases hp : place = field
    · subst hp
      rw [Ascending.find?_alter_self _ _ (h.sorted_fields? other), count_eq_find?]
      simp
    · rw [Ascending.find?_alter_of_ne _ _ hp, if_neg (fun hh => hp hh.2), stored]
      cases t.fields? other <;> rfl
  · have hsame : (t.add owner field amount).fields? other = t.fields? other :=
      Ascending.find?_alter_of_ne _ _ ho
    rw [if_neg (fun hh => ho hh.1), stored, hsame, stored]

theorem count_add_toNat {t : Table} (h : t.WellFormed) (owner other : String)
    (field place amount : UInt64) :
    ((t.add owner field amount).count other place).toNat =
      min (2 ^ 64 - 1) ((t.count other place).toNat +
        if owner = other ∧ field = place then amount.toNat else 0) := by
  have bound := UInt64.toNat_lt (t.count other place)
  rw [count_eq_stored, stored_add h]
  by_cases hk : other = owner ∧ place = field
  · obtain ⟨rfl, rfl⟩ := hk
    simp [saturatingAdd_toNat]
  · have hk' : ¬(owner = other ∧ field = place) := fun hh => hk ⟨hh.1.symm, hh.2.symm⟩
    rw [if_neg hk, if_neg hk', ← count_eq_stored]
    omega

theorem saturatingAdd_pos (a : UInt64) {b : UInt64} (hb : 0 < b) : 0 < saturatingAdd a b := by
  have hb' : 0 < b.toNat := hb
  change 0 < (saturatingAdd a b).toNat
  rw [saturatingAdd_toNat]
  omega

/-- The amount must not be zero, or an entry that counts nothing would come to be. -/
theorem wellFormed_add {t : Table} (h : t.WellFormed) (owner : String) (field : UInt64)
    {amount : UInt64} (hpos : 0 < amount) : (t.add owner field amount).WellFormed := by
  have sorted := h.sorted_fields? owner
  have old : ∀ entry ∈ (t.fields? owner).getD [], 0 < entry.2 := by
    cases hf : t.fields? owner with
    | none => simp
    | some counts =>
      exact h.positive (owner, counts) ((Ascending.find?_eq_some_iff_mem h.names).mp hf)
  refine ⟨Ascending.sorted_alter _ _ h.names, ?_, ?_, ?_⟩
  · intro bucket hb
    rcases Ascending.mem_alter h.names hb with rfl | hb
    · exact Ascending.sorted_alter _ _ sorted
    · exact h.fields bucket hb
  · intro bucket hb
    rcases Ascending.mem_alter h.names hb with rfl | hb
    · exact Ascending.alter_ne_nil _ _ _
    · exact h.inhabited bucket hb
  · intro bucket hb
    rcases Ascending.mem_alter h.names hb with rfl | hb
    · intro entry he
      rcases Ascending.mem_alter sorted he with rfl | he
      · exact saturatingAdd_pos _ hpos
      · exact old entry he
    · exact h.positive bucket hb

theorem WellFormed.count_of_mem {t : Table} (h : t.WellFormed) {owner : String} {counts : FieldCounts}
    {field n : UInt64} (hb : (owner, counts) ∈ t.buckets) (he : (field, n) ∈ counts) : t.count owner field = n := by
  have hf : t.fields? owner = some counts := (Ascending.find?_eq_some_iff_mem h.names).mpr hb
  have hn : Ascending.find? field counts = some n := (Ascending.find?_eq_some_iff_mem (h.fields _ hb)).mpr he
  rw [count, hf, Option.bind_some, hn, Option.getD_some]

/-- A structure and a field that a table has an entry for. -/
def Present (t : Table) (owner : String) (field : UInt64) : Prop :=
  ∃ counts, t.fields? owner = some counts ∧ ∃ n, Ascending.find? field counts = some n

theorem present_iff_stored (t : Table) (owner : String) (field : UInt64) :
    t.Present owner field ↔ ∃ n, t.stored owner field = some n := by
  constructor
  · rintro ⟨counts, hf, n, hn⟩
    exact ⟨n, by simp [stored, hf, hn]⟩
  · rintro ⟨n, hn⟩
    obtain ⟨counts, hf, hn⟩ := Option.bind_eq_some_iff.mp hn
    exact ⟨counts, hf, n, hn⟩

theorem WellFormed.stored_pos {t : Table} (h : t.WellFormed) {owner : String} {field n : UInt64}
    (hn : t.stored owner field = some n) : 0 < n := by
  obtain ⟨counts, hf, hn⟩ := Option.bind_eq_some_iff.mp hn
  have hb := (Ascending.find?_eq_some_iff_mem h.names).mp hf
  have he := (Ascending.find?_eq_some_iff_mem (h.fields _ hb)).mp hn
  exact h.positive _ hb _ he

theorem WellFormed.present_iff_count_pos {t : Table} (h : t.WellFormed) (owner : String)
    (field : UInt64) : t.Present owner field ↔ 0 < (t.count owner field).toNat := by
  rw [present_iff_stored, count_eq_stored]
  constructor
  · rintro ⟨n, hn⟩
    rw [hn]
    exact h.stored_pos hn
  · intro hpos
    cases hs : t.stored owner field with
    | none => rw [hs] at hpos; exact absurd hpos (by decide)
    | some n => exact ⟨n, rfl⟩

/-- No stored count is zero, so an absent entry is told from a present one by the count. -/
theorem WellFormed.stored_eq_of_count_eq {t u : Table} (ht : t.WellFormed) (hu : u.WellFormed)
    {owner : String} {field : UInt64} (same : t.count owner field = u.count owner field) :
    t.stored owner field = u.stored owner field := by
  have present : t.Present owner field ↔ u.Present owner field := by
    rw [ht.present_iff_count_pos, hu.present_iff_count_pos, same]
  rw [present_iff_stored, present_iff_stored] at present
  rw [count_eq_stored, count_eq_stored] at same
  cases hs : t.stored owner field with
  | none =>
    cases hs' : u.stored owner field with
    | none => rfl
    | some m =>
      obtain ⟨n, hn⟩ := present.mpr ⟨m, hs'⟩
      rw [hs] at hn
      cases hn
  | some n =>
    obtain ⟨m, hm⟩ := present.mp ⟨n, hs⟩
    rw [hs, hm] at same
    rw [hm]
    exact congrArg some same

/-- A field that is found belongs to a structure with an entry. -/
theorem WellFormed.fields?_of_stored {t : Table} (h : t.WellFormed) {owner : String}
    {counts : FieldCounts} (hf : t.fields? owner = some counts) :
    ∃ field n, t.stored owner field = some n := by
  have hb := (Ascending.find?_eq_some_iff_mem h.names).mp hf
  obtain ⟨⟨field, n⟩, he⟩ := List.exists_mem_of_ne_nil _ (h.inhabited _ hb)
  refine ⟨field, n, ?_⟩
  rw [stored, hf, Option.bind_some]
  exact (Ascending.find?_eq_some_iff_mem (h.fields _ hb)).mpr he

/-- For each name the fields agree with their counts, and then the names with their fields. -/
theorem WellFormed.eq_of_count_eq {t u : Table} (ht : t.WellFormed) (hu : u.WellFormed)
    (same : ∀ owner field, t.count owner field = u.count owner field) : t = u := by
  have stored_eq : ∀ owner field, t.stored owner field = u.stored owner field :=
    fun owner field => ht.stored_eq_of_count_eq hu (same owner field)
  have fields_eq : ∀ owner, t.fields? owner = u.fields? owner := by
    intro owner
    cases hf : t.fields? owner with
    | none =>
      cases hf' : u.fields? owner with
      | none => rfl
      | some counts =>
        obtain ⟨field, n, hn⟩ := hu.fields?_of_stored hf'
        rw [← stored_eq, stored, hf] at hn
        cases hn
    | some counts =>
      cases hf' : u.fields? owner with
      | none =>
        obtain ⟨field, n, hn⟩ := ht.fields?_of_stored hf
        rw [stored_eq, stored, hf'] at hn
        cases hn
      | some counts' =>
        congr 1
        apply Ascending.eq_of_find?_eq
        · simpa [hf] using ht.sorted_fields? owner
        · simpa [hf'] using hu.sorted_fields? owner
        · intro field
          simpa [stored, hf, hf'] using stored_eq owner field
  have hbuckets := Ascending.eq_of_find?_eq ht.names hu.names fields_eq
  cases t
  cases u
  exact congrArg Table.mk hbuckets

theorem WellFormed.eq_of_toNat_count_eq {t u : Table} (ht : t.WellFormed) (hu : u.WellFormed)
    (same : ∀ owner field, (t.count owner field).toNat = (u.count owner field).toNat) : t = u :=
  ht.eq_of_count_eq hu fun owner field => UInt64.toNat_inj.mp (same owner field)

/-- How often a list of accesses names a field of a structure. -/
def occurrences (accesses : List Access) (owner : String) (field : UInt64) : Nat :=
  accesses.countP fun a => a.owner = owner ∧ a.field = field

theorem occurrences_append (xs ys : List Access) (owner : String) (field : UInt64) :
    occurrences (xs ++ ys) owner field = occurrences xs owner field + occurrences ys owner field :=
  List.countP_append

theorem wellFormed_record {t : Table} (h : t.WellFormed) (a : Access) : (t.record a).WellFormed :=
  wellFormed_add h a.owner a.field (by decide)

theorem wellFormed_foldl_record (accesses : List Access) {t : Table} (h : t.WellFormed) :
    (accesses.foldl record t).WellFormed := by
  induction accesses generalizing t with
  | nil => exact h
  | cons a rest ih => exact ih (wellFormed_record h a)

/-- By induction on the accesses; a count that is full stays full. -/
theorem count_foldl_record_toNat (accesses : List Access) {t : Table} (h : t.WellFormed)
    (owner : String) (field : UInt64) :
    ((accesses.foldl record t).count owner field).toNat =
      min (2 ^ 64 - 1) ((t.count owner field).toNat + occurrences accesses owner field) := by
  induction accesses generalizing t with
  | nil =>
    have bound := UInt64.toNat_lt (t.count owner field)
    simp only [List.foldl_nil, occurrences, List.countP_nil]
    omega
  | cons a rest ih =>
    have step : ((t.record a).count owner field).toNat = _ :=
      count_add_toNat h a.owner owner a.field field 1
    rw [List.foldl_cons, ih (wellFormed_record h a), step, occurrences, occurrences, List.countP_cons]
    by_cases hk : a.owner = owner ∧ a.field = field
    · simp only [hk, UInt64.toNat_one, and_self, decide_true, if_true]
      omega
    · simp only [hk, decide_false, if_false, Bool.false_eq_true]
      omega

theorem wellFormed_ofAccesses (accesses : List Access) : (ofAccesses accesses).WellFormed :=
  wellFormed_foldl_record accesses wellFormed_empty

theorem count_ofAccesses_toNat (accesses : List Access) (owner : String) (field : UInt64) :
    ((ofAccesses accesses).count owner field).toNat =
      min (2 ^ 64 - 1) (occurrences accesses owner field) := by
  rw [ofAccesses, count_foldl_record_toNat accesses wellFormed_empty, count_empty]
  simp

theorem present_ofAccesses (accesses : List Access) (owner : String) (field : UInt64) :
    (ofAccesses accesses).Present owner field ↔ ∃ a ∈ accesses, a.owner = owner ∧ a.field = field := by
  have hpos : 0 < occurrences accesses owner field ↔ ∃ a ∈ accesses, a.owner = owner ∧ a.field = field := by
    simp [occurrences, List.countP_pos_iff]
  rw [(wellFormed_ofAccesses accesses).present_iff_count_pos, count_ofAccesses_toNat, ← hpos]
  omega

theorem WellFormed.mem_structures_iff {t : Table} (h : t.WellFormed) (owner : String) :
    owner ∈ t.structures ↔ ∃ field, t.Present owner field := by
  constructor
  · intro hm
    obtain ⟨⟨name, counts⟩, hb, rfl⟩ := List.mem_map.mp hm
    have hf : t.fields? name = some counts := (Ascending.find?_eq_some_iff_mem h.names).mpr hb
    obtain ⟨field, n, hn⟩ := h.fields?_of_stored hf
    exact ⟨field, (t.present_iff_stored name field).mpr ⟨n, hn⟩⟩
  · rintro ⟨field, counts, hf, -⟩
    have hb := (Ascending.find?_eq_some_iff_mem h.names).mp hf
    exact List.mem_map.mpr ⟨(owner, counts), hb, rfl⟩

/-- Every structure and every field of a table is in another one, with at least the same count. -/
structure Within (t u : Table) : Prop where
  structures : ∀ owner ∈ t.structures, owner ∈ u.structures
  fields : ∀ owner field, t.Present owner field → u.Present owner field
  counts : ∀ owner field, t.count owner field ≤ u.count owner field

theorem WellFormed.within_of_count_le {t u : Table} (ht : t.WellFormed) (hu : u.WellFormed)
    (hle : ∀ owner field, t.count owner field ≤ u.count owner field) : t.Within u := by
  have hfields : ∀ owner field, t.Present owner field → u.Present owner field := by
    intro owner field hp
    have hpos := (ht.present_iff_count_pos owner field).mp hp
    have hcount := UInt64.le_iff_toNat_le.mp (hle owner field)
    exact (hu.present_iff_count_pos owner field).mpr (by omega)
  refine ⟨?_, hfields, hle⟩
  intro owner hm
  obtain ⟨field, hp⟩ := (ht.mem_structures_iff owner).mp hm
  exact (hu.mem_structures_iff owner).mpr ⟨field, hfields owner field hp⟩

theorem within_ofAccesses {xs ys : List Access}
    (hle : ∀ owner field, occurrences xs owner field ≤ occurrences ys owner field) :
    (ofAccesses xs).Within (ofAccesses ys) := by
  apply (wellFormed_ofAccesses xs).within_of_count_le (wellFormed_ofAccesses ys)
  intro owner field
  have hn := hle owner field
  rw [UInt64.le_iff_toNat_le, count_ofAccesses_toNat, count_ofAccesses_toNat]
  omega

theorem ofAccesses_congr {xs ys : List Access}
    (same : ∀ owner field, occurrences xs owner field = occurrences ys owner field) :
    ofAccesses xs = ofAccesses ys := by
  apply (wellFormed_ofAccesses xs).eq_of_toNat_count_eq (wellFormed_ofAccesses ys)
  intro owner field
  rw [count_ofAccesses_toNat, count_ofAccesses_toNat, same]

theorem ofAccesses_perm {xs ys : List Access} (h : xs.Perm ys) : ofAccesses xs = ofAccesses ys :=
  ofAccesses_congr fun _ _ => h.countP_eq _

/-- The counts of buckets, one after another. -/
def entriesOf (buckets : List (String × FieldCounts)) : List (String × UInt64 × UInt64) :=
  buckets.flatMap fun bucket => bucket.2.map (Prod.mk bucket.1)

theorem sum_entriesOf (buckets : List (String × FieldCounts)) (share : String × UInt64 × UInt64 → Nat) :
    ((entriesOf buckets).map share).sum =
      (buckets.map fun bucket => (bucket.2.map fun e => share (bucket.1, e)).sum).sum := by
  rw [entriesOf, List.flatMap_def, List.map_flatten, List.sum_flatten, List.map_map, List.map_map]
  simp only [Function.comp_def, List.map_map]

theorem merge_eq_foldl (t : Table) (buckets : List (String × FieldCounts)) :
    t.merge ⟨buckets⟩ = (entriesOf buckets).foldl (fun t e => t.add e.1 e.2.1 e.2.2) t := by
  rw [entriesOf, List.foldl_flatMap]
  simp only [List.foldl_map]
  rfl

/-- What one addition does to a bounded measure of tables, a merge does with all counts of the other table. -/
theorem merge_measure (measure : Table → Nat) (share : String × UInt64 × UInt64 → Nat)
    (small : ∀ t, measure t ≤ 2 ^ 64 - 1)
    (hadd : ∀ t : Table, t.WellFormed → ∀ owner field amount,
      measure (t.add owner field amount) = min (2 ^ 64 - 1) (measure t + share (owner, field, amount)))
    {buckets : List (String × FieldCounts)} (positive : ∀ bucket ∈ buckets, ∀ entry ∈ bucket.2, 0 < entry.2)
    {t : Table} (h : t.WellFormed) :
    (t.merge ⟨buckets⟩).WellFormed ∧ measure (t.merge ⟨buckets⟩) =
      min (2 ^ 64 - 1) (measure t + ((entriesOf buckets).map share).sum) := by
  rw [merge_eq_foldl]
  refine foldl_min_add WellFormed measure share small ?_ h
  intro e he t ht
  obtain ⟨bucket, hb, he⟩ := List.mem_flatMap.mp he
  obtain ⟨entry, hentry, rfl⟩ := List.mem_map.mp he
  exact ⟨wellFormed_add ht _ _ (positive bucket hb entry hentry), hadd t ht _ _ _⟩

/-- The total that the buckets of a list add to a count. -/
def amountIn (buckets : List (String × FieldCounts)) (owner : String) (field : UInt64) : Nat :=
  (buckets.map fun b =>
    if b.1 = owner then (b.2.map fun e => if e.1 = field then e.2.toNat else 0).sum else 0).sum

theorem WellFormed.amountIn_buckets {t : Table} (h : t.WellFormed) (owner : String)
    (field : UInt64) : amountIn t.buckets owner field = (t.count owner field).toNat := by
  rw [amountIn, Ascending.sum_of_key h.names owner
    fun counts => (counts.map fun e => if e.1 = field then e.2.toNat else 0).sum]
  change (t.fields? owner).elim _ _ = _
  unfold count
  cases hf : t.fields? owner with
  | none => rfl
  | some counts =>
    have sorted : Ascending.Sorted counts := by simpa [hf] using h.sorted_fields? owner
    simp only [Option.elim_some, Option.bind_some, Ascending.sum_of_key sorted field UInt64.toNat]
    cases Ascending.find? field counts <;> rfl

theorem amountIn_eq_sum (buckets : List (String × FieldCounts)) (owner : String) (field : UInt64) :
    amountIn buckets owner field =
      ((entriesOf buckets).map fun e => if e.1 = owner ∧ e.2.1 = field then e.2.2.toNat else 0).sum := by
  rw [sum_entriesOf, amountIn]
  congr 1
  apply List.map_congr_left
  intro bucket _
  by_cases ho : bucket.1 = owner <;> simp [ho]

theorem count_le (t : Table) (owner : String) (field : UInt64) : (t.count owner field).toNat ≤ 2 ^ 64 - 1 :=
  Nat.le_pred_of_lt (t.count owner field).toNat_lt

theorem merge_buckets (buckets : List (String × FieldCounts))
    (positive : ∀ bucket ∈ buckets, ∀ entry ∈ bucket.2, 0 < entry.2) {t : Table} (h : t.WellFormed) :
    (t.merge ⟨buckets⟩).WellFormed ∧ ∀ owner field, ((t.merge ⟨buckets⟩).count owner field).toNat =
      min (2 ^ 64 - 1) ((t.count owner field).toNat + amountIn buckets owner field) := by
  have spec := fun owner field => merge_measure (fun t => (t.count owner field).toNat)
    (fun e => if e.1 = owner ∧ e.2.1 = field then e.2.2.toNat else 0) (fun t => t.count_le owner field)
    (fun t ht name place amount => count_add_toNat ht name owner place field amount) positive h
  refine ⟨(spec "" 0).1, fun owner field => ?_⟩
  rw [amountIn_eq_sum]
  exact (spec owner field).2

theorem wellFormed_merge {t u : Table} (ht : t.WellFormed) (hu : u.WellFormed) :
    (t.merge u).WellFormed :=
  (merge_buckets u.buckets hu.positive ht).1

theorem count_merge_toNat {t u : Table} (ht : t.WellFormed) (hu : u.WellFormed) (owner : String)
    (field : UInt64) :
    ((t.merge u).count owner field).toNat =
      min (2 ^ 64 - 1) ((t.count owner field).toNat + (u.count owner field).toNat) := by
  rw [← hu.amountIn_buckets]
  exact (merge_buckets u.buckets hu.positive ht).2 owner field

theorem wellFormed_merged {t u : Table} (ht : t.WellFormed) (hu : u.WellFormed) :
    (t.merged u).WellFormed := by
  unfold merged
  split
  next => exact hu
  next => exact wellFormed_merge ht hu

/-- The shortcut for an empty table gives the same counts as adding to it. -/
theorem count_merged_toNat {t u : Table} (ht : t.WellFormed) (hu : u.WellFormed) (owner : String)
    (field : UInt64) :
    ((t.merged u).count owner field).toNat =
      min (2 ^ 64 - 1) ((t.count owner field).toNat + (u.count owner field).toNat) := by
  unfold merged
  split
  next hempty =>
    have ht0 : t = empty := by
      cases t
      exact congrArg Table.mk (List.isEmpty_iff.mp hempty)
    have bound := UInt64.toNat_lt (u.count owner field)
    rw [ht0, count_empty, UInt64.toNat_zero]
    omega
  next => exact count_merge_toNat ht hu owner field

theorem merged_eq_merge {t u : Table} (ht : t.WellFormed) (hu : u.WellFormed) :
    t.merged u = t.merge u := by
  apply (wellFormed_merged ht hu).eq_of_toNat_count_eq (wellFormed_merge ht hu)
  intro owner field
  rw [count_merged_toNat ht hu, count_merge_toNat ht hu]

/-- Recording two lists and joining the tables is recording one list after the other. -/
theorem merged_ofAccesses (xs ys : List Access) :
    (ofAccesses xs).merged (ofAccesses ys) = ofAccesses (xs ++ ys) := by
  have hx := wellFormed_ofAccesses xs
  have hy := wellFormed_ofAccesses ys
  apply (wellFormed_merged hx hy).eq_of_toNat_count_eq (wellFormed_ofAccesses _)
  intro owner field
  rw [count_merged_toNat hx hy, count_ofAccesses_toNat, count_ofAccesses_toNat,
    count_ofAccesses_toNat, occurrences_append]
  omega

/-- A table that the operations lead to from new tables. -/
inductive Reachable : Table → Prop
  | empty : Reachable empty
  | increment {t : Table} (h : Reachable t) (owner : String) (field : UInt64) :
    Reachable (t.increment owner field)
  | record {t : Table} (h : Reachable t) (a : Access) : Reachable (t.record a)
  | merge {t u : Table} (ht : Reachable t) (hu : Reachable u) : Reachable (t.merge u)
  | merged {t u : Table} (ht : Reachable t) (hu : Reachable u) : Reachable (t.merged u)

theorem Reachable.wellFormed {t : Table} (h : t.Reachable) : t.WellFormed := by
  induction h with
  | empty => exact wellFormed_empty
  | increment _ owner field ih => exact wellFormed_add ih owner field (by decide)
  | record _ a ih => exact wellFormed_record ih a
  | merge _ _ ht hu => exact wellFormed_merge ht hu
  | merged _ _ ht hu => exact wellFormed_merged ht hu

end Table

end HotFields
