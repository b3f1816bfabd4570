import HotFields.Proofs.ByteOrder
import HotFields.Proofs.TableMerging

namespace HotFields

namespace Table

/-- A table as its queries show it: fields and names in strict order, names those that have a field, fields with a count of
one or more. -/
structure Regular (t : Table) : Prop where
  inhabited : ∀ owner counts, t.fields? owner = some counts → counts ≠ []
  bounds : ∀ owner counts, t.fields? owner = some counts →
    ∀ entry ∈ counts, 1 ≤ entry.2.toNat ∧ entry.2.toNat ≤ 2 ^ 64 - 1
  fields : ∀ owner counts, t.fields? owner = some counts → (counts.map Prod.fst).Pairwise (· < ·)
  structures : t.structures.Pairwise fun name next => utf8Bytes name < utf8Bytes next
  exact : ∀ owner, owner ∈ t.structures ↔ ∃ field, t.Present owner field

/-- A count is positive by well-formedness, and bounded because it has 64 bits. -/
theorem WellFormed.regular {t : Table} (h : t.WellFormed) : t.Regular := by
  have bucket : ∀ {owner counts}, t.fields? owner = some counts → (owner, counts) ∈ t.buckets :=
    fun hf => (Ascending.find?_eq_some_iff_mem h.names).mp hf
  refine ⟨?_, ?_, ?_, ?_, h.mem_structures_iff⟩
  · intro owner counts hf
    exact h.inhabited _ (bucket hf)
  · intro owner counts hf entry he
    have hpos : 0 < entry.2.toNat := h.positive _ (bucket hf) entry he
    have hlt := UInt64.toNat_lt entry.2
    omega
  · intro owner counts hf
    exact List.pairwise_map.mpr (h.fields _ (bucket hf))
  · exact List.pairwise_map.mpr (h.names.imp utf8Bytes_lt)

theorem Within.refl (t : Table) : t.Within t :=
  ⟨fun _ h => h, fun _ _ h => h, fun _ _ => UInt64.le_refl _⟩

theorem Within.trans {t u v : Table} (h : t.Within u) (h' : u.Within v) : t.Within v :=
  ⟨fun owner hm => h'.structures owner (h.structures owner hm),
    fun owner field hp => h'.fields owner field (h.fields owner field hp),
    fun owner field => UInt64.le_trans (h.counts owner field) (h'.counts owner field)⟩

theorem WellFormed.within_increment {t : Table} (h : t.WellFormed) (owner : String) (field : UInt64) :
    t.Within (t.increment owner field) := by
  apply h.within_of_count_le (wellFormed_add h owner field (by decide))
  intro name place
  have hbound := t.count_le name place
  rw [UInt64.le_iff_toNat_le, count_add_toNat h]
  omega

theorem WellFormed.within_merged {t u : Table} (ht : t.WellFormed) (hu : u.WellFormed) : t.Within (t.merged u) := by
  apply ht.within_of_count_le (wellFormed_merged ht hu)
  intro owner field
  have hbound := t.count_le owner field
  rw [UInt64.le_iff_toNat_le, count_merged_toNat ht hu]
  omega

theorem WellFormed.argument_within_merged {t u : Table} (ht : t.WellFormed) (hu : u.WellFormed) :
    u.Within (t.merged u) := by
  rw [merged_comm ht hu]
  exact hu.within_merged ht

end Table

/-- Tables in use. Those that clients share are counted apart. All are new at first. -/
structure Workbench where
  plain : Nat → Table := fun _ => .empty
  shared : Nat → SharedTable := fun _ => {}

namespace Workbench

/-- Where a table is. -/
inductive Place where
  | plain (k : Nat)
  | shared (k : Nat)
  deriving DecidableEq

def table (w : Workbench) : Place → Table
  | .plain k => w.plain k
  | .shared k => (w.shared k).contents

/-- An operation on tables. One that takes another table along updates the first. -/
inductive Operation where
  | increment (place : Place) (owner : String) (field : UInt64)
  | record (place : Place) (a : Access)
  | merge (k : Nat) (other : Place)
  | merged (k : Nat) (other : Place)
  | absorb (k : Nat) (part : Place)

def putPlain (w : Workbench) (k : Nat) (t : Table) : Workbench :=
  { w with plain := fun j => if j = k then t else w.plain j }

def putShared (w : Workbench) (k : Nat) (s : SharedTable) : Workbench :=
  { w with shared := fun j => if j = k then s else w.shared j }

def perform (w : Workbench) : Operation → Workbench
  | .increment (.plain k) owner field => w.putPlain k ((w.plain k).increment owner field)
  | .increment (.shared k) owner field => w.putShared k ((w.shared k).increment owner field)
  | .record (.plain k) a => w.putPlain k ((w.plain k).record a)
  | .record (.shared k) a => w.putShared k ((w.shared k).record a)
  | .merge k other => w.putPlain k ((w.plain k).merge (w.table other))
  | .merged k other => w.putPlain k ((w.plain k).merged (w.table other))
  | .absorb k part => w.putShared k ((w.shared k).absorb (w.table part))

def run (w : Workbench) (operations : List Operation) : Workbench :=
  operations.foldl perform w

/-- The table that an operation updates. -/
def Operation.target : Operation → Place
  | .increment place _ _ | .record place _ => place
  | .merge k _ | .merged k _ => .plain k
  | .absorb k _ => .shared k

/-- The table that an operation takes along. -/
def Operation.argument : Operation → Option Place
  | .increment .. | .record .. => none
  | .merge _ other | .merged _ other => some other
  | .absorb _ part => some part

theorem table_putPlain (w : Workbench) (k : Nat) (t : Table) (place : Place) :
    (w.putPlain k t).table place = if place = .plain k then t else w.table place := by
  cases place with
  | plain j => simp [table, putPlain]
  | shared j => simp [table, putPlain]

theorem table_putShared (w : Workbench) (k : Nat) (s : SharedTable) (place : Place) :
    (w.putShared k s).table place = if place = .shared k then s.contents else w.table place := by
  cases place with
  | plain j => simp [table, putShared]
  | shared j =>
    by_cases hj : j = k
    · simp [table, putShared, hj]
    · simp [table, putShared, hj]

/-- What an operation can do: one table gets a further access, or the counts of another table. -/
theorem perform_cases {w : Workbench} (h : ∀ place, (w.table place).Reachable) (op : Operation) :
    ∃ t, (∀ place, (w.perform op).table place = if place = op.target then t else w.table place) ∧
      ((∃ owner field, t = (w.table op.target).increment owner field ∧ op.argument = none) ∨
        ∃ other, t = (w.table op.target).merged (w.table other) ∧ op.argument = some other) := by
  have merge_eq : ∀ place other, (w.table place).merge (w.table other) = (w.table place).merged (w.table other) :=
    fun place other => (Table.merged_eq_merge (h place).wellFormed (h other).wellFormed).symm
  cases op with
  | increment place owner field =>
    cases place with
    | plain k => exact ⟨_, w.table_putPlain k _, .inl ⟨owner, field, rfl, rfl⟩⟩
    | shared k => exact ⟨_, w.table_putShared k _, .inl ⟨owner, field, rfl, rfl⟩⟩
  | record place a =>
    cases place with
    | plain k => exact ⟨_, w.table_putPlain k _, .inl ⟨a.owner, a.field, rfl, rfl⟩⟩
    | shared k => exact ⟨_, w.table_putShared k _, .inl ⟨a.owner, a.field, rfl, rfl⟩⟩
  | merge k other => exact ⟨_, w.table_putPlain k _, .inr ⟨other, merge_eq (.plain k) other, rfl⟩⟩
  | merged k other => exact ⟨_, w.table_putPlain k _, .inr ⟨other, rfl, rfl⟩⟩
  | absorb k part => exact ⟨_, w.table_putShared k _, .inr ⟨part, merge_eq (.shared k) part, rfl⟩⟩

/-- An operation changes one table, and that by a way in which tables come to be. -/
theorem reachable_perform {w : Workbench} (h : ∀ place, (w.table place).Reachable) (op : Operation) (place : Place) :
    ((w.perform op).table place).Reachable := by
  obtain ⟨t, htable, hcases⟩ := perform_cases h op
  rw [htable]
  split
  next =>
    rcases hcases with ⟨owner, field, rfl, -⟩ | ⟨other, rfl, -⟩
    · exact .increment (h _) owner field
    · exact .merged (h _) (h other)
  next => exact h place

/-- No operation lowers a count. -/
theorem within_perform {w : Workbench} (h : ∀ place, (w.table place).Reachable) (op : Operation) (place : Place) :
    (w.table place).Within ((w.perform op).table place) := by
  obtain ⟨t, htable, hcases⟩ := perform_cases h op
  rw [htable]
  split
  next heq =>
    subst heq
    rcases hcases with ⟨owner, field, rfl, -⟩ | ⟨other, rfl, -⟩
    · exact (h _).wellFormed.within_increment owner field
    · exact (h _).wellFormed.within_merged (h other).wellFormed
  next => exact .refl _

theorem argument_within_perform {w : Workbench} (h : ∀ place, (w.table place).Reachable) {op : Operation} {other : Place}
    (ho : op.argument = some other) : (w.table other).Within ((w.perform op).table op.target) := by
  obtain ⟨t, htable, hcases⟩ := perform_cases h op
  rw [htable, if_pos rfl]
  rcases hcases with ⟨_, _, _, hnone⟩ | ⟨place, rfl, hsome⟩
  · cases hnone.symm.trans ho
  · cases hsome.symm.trans ho
    exact (h _).wellFormed.argument_within_merged (h other).wellFormed

theorem reachable_run {w : Workbench} (h : ∀ place, (w.table place).Reachable) (operations : List Operation)
    (place : Place) : ((w.run operations).table place).Reachable := by
  induction operations generalizing w with
  | nil => exact h place
  | cons op rest ih => exact ih (reachable_perform h op)

theorem within_run {w : Workbench} (h : ∀ place, (w.table place).Reachable) (operations : List Operation)
    (place : Place) : (w.table place).Within ((w.run operations).table place) := by
  induction operations generalizing w with
  | nil => exact .refl _
  | cons op rest ih => exact (within_perform h op place).trans (ih (reachable_perform h op))

theorem reachable_new (place : Place) : (({} : Workbench).table place).Reachable := by
  cases place <;> exact .empty

/-- After any operations on new tables, each of the tables is in order. Whatever is done next, no table loses a structure
or a field and no count goes down, and a table that is taken along is found again in the one that is updated. -/
theorem run_regular (operations : List Operation) :
    let w := ({} : Workbench).run operations
    (∀ place, (w.table place).Regular) ∧
    (∀ op place, (w.table place).Within ((w.perform op).table place)) ∧
    (∀ op, ∀ other ∈ op.argument, (w.table other).Within ((w.perform op).table op.target)) ∧
    ∀ later place, (w.table place).Within ((w.run later).table place) := by
  intro w
  have reachable : ∀ place, (w.table place).Reachable := reachable_run reachable_new operations
  refine ⟨fun place => (reachable place).wellFormed.regular, within_perform reachable, ?_, within_run reachable⟩
  intro op other ho
  exact argument_within_perform reachable ho

/-- One access, and a join of the table with itself as often as it takes to fill its count. -/
def filling : List Operation :=
  .increment (.plain 0) "pair" 1 :: List.replicate 64 (.merged 0 (.plain 0))

theorem table_run_doubling (w : Workbench) (n : Nat) :
    (w.run (List.replicate n (.merged 0 (.plain 0)))).table (.plain 0) = (w.table (.plain 0)).doubled n := by
  induction n with
  | zero => rfl
  | succ n ih =>
    rw [run, List.replicate_succ', List.foldl_append]
    change ((w.run _).putPlain 0 _).table (.plain 0) = _
    rw [table_putPlain, if_pos rfl]
    change ((w.run _).table (.plain 0)).merged ((w.run _).table (.plain 0)) = _
    rw [ih]
    rfl

theorem table_filling : (({} : Workbench).run filling).table (.plain 0) = Table.fullCount := by
  have first : (perform {} (.increment (.plain 0) "pair" 1)).table (.plain 0) = Table.empty.increment "pair" 1 := rfl
  rw [filling, run, List.foldl_cons, ← run, table_run_doubling, first, Table.fullCount]

/-- A full count stays as it is, in its own table and in a shared one that absorbs it. -/
theorem run_regular_filling :
    let w := ({} : Workbench).run filling
    (w.table (.plain 0)).count "pair" 1 = 0xFFFFFFFFFFFFFFFF ∧
    (w.table (.plain 0)).Regular ∧
    (w.table (.plain 0)).Within ((w.perform (.increment (.plain 0) "pair" 1)).table (.plain 0)) ∧
    (w.table (.plain 0)).Within ((w.perform (.absorb 3 (.plain 0))).table (.shared 3)) := by
  intro w
  obtain ⟨regular, grows, taken, -⟩ := run_regular filling
  exact ⟨table_filling ▸ Table.count_fullCount, regular _, grows _ _, taken (.absorb 3 (.plain 0)) _ rfl⟩

end Workbench

end HotFields
