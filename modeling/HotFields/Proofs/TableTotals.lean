import HotFields.Proofs.PassHooks
import HotFields.Proofs.TableMerging

namespace HotFields

theorem foldl_saturatingAdd_toNat (counts : List UInt64) (start : UInt64) :
    (counts.foldl saturatingAdd start).toNat =
      min (2 ^ 64 - 1) (start.toNat + (counts.map UInt64.toNat).sum) := by
  have small : ∀ n : UInt64, n.toNat ≤ 2 ^ 64 - 1 := fun n => Nat.le_pred_of_lt n.toNat_lt
  have run := foldl_min_add (fun _ => True) UInt64.toNat UInt64.toNat small
    (fun n (_ : n ∈ counts) sum _ => ⟨trivial, saturatingAdd_toNat sum n⟩) (s := start) trivial
  exact run.2

theorem foldl_saturatingAdd_perm {counts others : List UInt64} (h : counts.Perm others) (start : UInt64) :
    counts.foldl saturatingAdd start = others.foldl saturatingAdd start := by
  apply UInt64.toNat_inj.mp
  rw [foldl_saturatingAdd_toNat, foldl_saturatingAdd_toNat, (h.map UInt64.toNat).sum_eq]

namespace Table

/-- The sum of the counts of one structure, without a bound. -/
def fieldMass (counts : FieldCounts) : Nat :=
  (counts.map fun entry => entry.2.toNat).sum

/-- The sum of all counts, without a bound. -/
def mass (t : Table) : Nat :=
  (t.buckets.map fun bucket => fieldMass bucket.2).sum

theorem mass_eq_sum (t : Table) : t.mass = ((entriesOf t.buckets).map fun e => e.2.2.toNat).sum := by
  rw [sum_entriesOf]
  rfl

theorem total_toNat (t : Table) : t.total.toNat = min (2 ^ 64 - 1) t.mass := by
  have hcounts : (t.buckets.flatMap fun bucket => bucket.2.map Prod.snd) =
      (entriesOf t.buckets).map fun e => e.2.2 := by
    simp only [entriesOf, List.map_flatMap, List.map_map, Function.comp_def]
  rw [total, foldl_saturatingAdd_toNat, hcounts, List.map_map, mass_eq_sum, UInt64.toNat_zero, Nat.zero_add]
  rfl

theorem fieldMass_fields? (t : Table) (owner : String) :
    (t.fields? owner).elim 0 fieldMass = fieldMass ((t.fields? owner).getD []) := by
  cases t.fields? owner <;> rfl

theorem elim_toNat (count : Option UInt64) : count.elim 0 UInt64.toNat = (count.getD 0).toNat := by
  cases count <;> rfl

theorem WellFormed.count_le_mass {t : Table} (h : t.WellFormed) (owner : String) (field : UInt64) :
    (t.count owner field).toNat ≤ t.mass := by
  have inner := Ascending.weight_le_sum (h.sorted_fields? owner) field UInt64.toNat
  have outer := Ascending.weight_le_sum h.names owner fieldMass
  rw [elim_toNat, ← count_eq_find?] at inner
  exact inner.trans ((t.fieldMass_fields? owner).symm.trans_le outer)

/-- Adding to a count changes the mass by what the count grows. -/
theorem WellFormed.mass_add {t : Table} (h : t.WellFormed) (owner : String) (field amount : UInt64) :
    (t.add owner field amount).mass + (t.count owner field).toNat =
      t.mass + (saturatingAdd (t.count owner field) amount).toNat := by
  have inner := Ascending.sum_alter field (fun count => saturatingAdd (count.getD 0) amount)
    (h.sorted_fields? owner) UInt64.toNat
  have outer := Ascending.sum_alter owner (fun counts => Ascending.alter field
    (fun count => saturatingAdd (count.getD 0) amount) (counts.getD [])) h.names fieldMass
  change (t.add owner field amount).mass + (t.fields? owner).elim 0 fieldMass = t.mass + fieldMass
    (Ascending.alter field (fun count => saturatingAdd (count.getD 0) amount) ((t.fields? owner).getD [])) at outer
  rw [elim_toNat, ← count_eq_find?] at inner
  rw [fieldMass_fields?] at outer
  unfold fieldMass at outer
  omega

-- A count that overflows weighs as much as the largest number by itself, so that nothing it drops is missed.
theorem WellFormed.total_add_toNat {t : Table} (h : t.WellFormed) (owner : String) (field amount : UInt64) :
    (t.add owner field amount).total.toNat = min (2 ^ 64 - 1) (t.total.toNat + amount.toNat) := by
  have grown := h.mass_add owner field amount
  have part := h.count_le_mass owner field
  have bound := UInt64.toNat_lt (t.count owner field)
  rw [saturatingAdd_toNat] at grown
  rw [total_toNat, total_toNat]
  omega

theorem total_le (t : Table) : t.total.toNat ≤ 2 ^ 64 - 1 :=
  Nat.le_pred_of_lt t.total.toNat_lt

theorem total_foldl_record_toNat (accesses : List Access) {t : Table} (h : t.WellFormed) :
    (accesses.foldl record t).total.toNat = min (2 ^ 64 - 1) (t.total.toNat + accesses.length) := by
  have run := foldl_min_add WellFormed (fun t => t.total.toNat) (fun _ => 1) total_le
    (fun a (_ : a ∈ accesses) t ht => ⟨wellFormed_record ht a, ht.total_add_toNat a.owner a.field 1⟩) h
  have hones : (accesses.map fun _ => 1).sum = accesses.length := by simp
  rw [run.2, hones]

theorem total_merged_toNat {t u : Table} (ht : t.WellFormed) (hu : u.WellFormed) :
    (t.merged u).total.toNat = min (2 ^ 64 - 1) (t.total.toNat + u.total.toNat) := by
  have hmerge := (merge_measure (fun t => t.total.toNat) (fun e => e.2.2.toNat) total_le
    (fun t ht => ht.total_add_toNat) hu.positive ht).2
  rw [← mass_eq_sum] at hmerge
  have hu' := u.total_toNat
  rw [merged_eq_merge ht hu]
  exact hmerge.trans (by omega)

end Table

namespace Pass

/-- The events that the walks of a pass report, while it is handed functions one after another. -/
def walkEvents (p : IndexedProgram) (pass : Pass) : List FunctionId → List Nat
  | [] => []
  | function :: rest =>
    let later := walkEvents p (pass.runOnFunction p function).2 rest
    if isRoot p.toProgram pass.options function then (pass.walker.walk p function pass.table).events :: later
    else later

/-- A walk adds the number of its accesses to the total, wherever they fall. -/
theorem runOnFunction_total (p : IndexedProgram) {pass : Pass} (h : pass.table.WellFormed) (function : FunctionId) :
    (pass.runOnFunction p function).2.table.WellFormed ∧
      (pass.runOnFunction p function).2.table.total.toNat = min (2 ^ 64 - 1)
        (pass.table.total.toNat + (pass.walkEvents p [function]).sum) := by
  unfold runOnFunction walkEvents
  split
  next =>
    have hsink : (pass.walker.walk p function pass.table).sink =
        (pass.walker.accesses p function).foldl Table.record pass.table := Walker.walk_sink _ _ _ _
    have hevents := Walker.walk_events pass.walker p function pass.table
    simp only [hsink, hevents, walkEvents, List.sum_cons, List.sum_nil, Nat.add_zero]
    exact ⟨Table.wellFormed_foldl_record _ h, Table.total_foldl_record_toNat _ h⟩
  next =>
    have bound := UInt64.toNat_lt pass.table.total
    refine ⟨h, ?_⟩
    simp only [walkEvents, List.sum_nil]
    omega

theorem walkEvents_cons (p : IndexedProgram) (pass : Pass) (function : FunctionId) (rest : List FunctionId) :
    (pass.walkEvents p (function :: rest)).sum =
      (pass.walkEvents p [function]).sum + ((pass.runOnFunction p function).2.walkEvents p rest).sum := by
  simp only [walkEvents]
  split <;> simp

/-- By induction on the functions; the events of the walks are added up. -/
theorem drive_total (p : IndexedProgram) {pass : Pass} (h : pass.table.WellFormed) (functions : List FunctionId) :
    (pass.drive p functions).2.table.total.toNat =
      min (2 ^ 64 - 1) (pass.table.total.toNat + (pass.walkEvents p functions).sum) := by
  induction functions generalizing pass with
  | nil =>
    have bound := UInt64.toNat_lt pass.table.total
    simp only [drive, walkEvents, List.sum_nil]
    omega
  | cons function rest ih =>
    obtain ⟨hstep, htotal⟩ := runOnFunction_total p h function
    have hsplit := walkEvents_cons p pass function rest
    change ((pass.runOnFunction p function).2.drive p rest).2.table.total.toNat = _
    rw [ih hstep, htotal, hsplit]
    omega

end Pass

/-- Joining adds totals and an increment adds one, up to the largest 64 bit number and also where the count is full. A pass,
whatever functions it is handed, has the total of the events that its walks report. A total is the same in every order
of the counts. -/
theorem Table.total_conserved :
    (∀ a b : Table, a.Reachable → b.Reachable →
      (a.merged b).total.toNat = min (2 ^ 64 - 1) (a.total.toNat + b.total.toNat)) ∧
    (∀ t : Table, t.Reachable → ∀ owner field,
      (t.increment owner field).total.toNat = min (2 ^ 64 - 1) (t.total.toNat + 1)) ∧
    (∀ (p : IndexedProgram) (o : Options) (functions : List FunctionId),
      ((Pass.start o).drive p functions).2.table.total.toNat =
        min (2 ^ 64 - 1) ((Pass.start o).walkEvents p functions).sum) ∧
    ∀ (t : Table) (order : List UInt64), order.Perm (t.buckets.flatMap fun bucket => bucket.2.map Prod.snd) →
      order.foldl saturatingAdd 0 = t.total := by
  refine ⟨?_, ?_, ?_, ?_⟩
  · intro a b ha hb
    exact total_merged_toNat ha.wellFormed hb.wellFormed
  · intro t ht owner field
    exact ht.wellFormed.total_add_toNat owner field 1
  · intro p o functions
    have htotal := Pass.drive_total p (show (Pass.start o).table.WellFormed from wellFormed_empty) functions
    have hzero : (Pass.start o).table.total.toNat = 0 := rfl
    rwa [hzero, Nat.zero_add] at htotal
  · intro t order h
    exact foldl_saturatingAdd_perm h 0

theorem Table.total_conserved_fullCount :
    let two := (Table.empty.increment "pair" 0).increment "other" 1
    Table.fullCount.Reachable ∧ two.Reachable ∧
    (two.merged Table.fullCount).total.toNat = min (2 ^ 64 - 1) (two.total.toNat + Table.fullCount.total.toNat) ∧
    (Table.fullCount.increment "pair" 1).total.toNat = min (2 ^ 64 - 1) (Table.fullCount.total.toNat + 1) ∧
    (Pass.start {}).walkEvents twoEntries.index [⟨0⟩, ⟨1⟩, ⟨2⟩, ⟨0⟩] = [1, 1, 1] ∧
    ((Pass.start {}).drive twoEntries.index [⟨0⟩, ⟨1⟩, ⟨2⟩, ⟨0⟩]).2.table.total.toNat =
      min (2 ^ 64 - 1) ((Pass.start {}).walkEvents twoEntries.index [⟨0⟩, ⟨1⟩, ⟨2⟩, ⟨0⟩]).sum ∧
    [1, 1].foldl saturatingAdd 0 = two.total := by
  intro two
  have htwo : two.Reachable := .increment (.increment .empty _ _) _ _
  obtain ⟨joins, increments, passes, orders⟩ := Table.total_conserved
  have hfull := Table.reachable_fullCount
  exact ⟨hfull, htwo, joins two Table.fullCount htwo hfull, increments Table.fullCount hfull "pair" 1,
    by decide, passes twoEntries.index {} [⟨0⟩, ⟨1⟩, ⟨2⟩, ⟨0⟩], orders two [1, 1] (by decide)⟩

end HotFields
