import HotFields.Proofs.ValidReferences
import HotFields.Proofs.WalkAgreement

namespace HotFields

/-- A load or a store with another address. -/
def Instruction.withAddress (address : Value) : Instruction → Instruction
  | .load type _ => .load type address
  | .store value _ => .store value address
  | inst => inst

/-- Puts `g` right before every listing of `i`. -/
def insertBefore (i g : InstId) (insts : List InstId) : List InstId :=
  insts.flatMap fun j => if j = i then [g, j] else [j]

/-- Computes an address in a new instruction `g` right before the load or store `i`, which takes it from there. -/
def Program.materialize (p : Program) (i g : InstId) (c : ConstGep) : Program :=
  { p with
    functions := p.functions.map fun f =>
      { f with blocks := f.blocks.map fun b => { b with insts := insertBefore i g b.insts } }
    instructions :=
      (p.instructions.modify i.index.toNat (Instruction.withAddress (.inst g))).push
        (.gep c.sourceType c.base c.indices) }

section InsertBefore

variable {i g : InstId}

@[simp] theorem insertBefore_nil (i g : InstId) : insertBefore i g [] = [] := rfl

theorem insertBefore_append (i g : InstId) (xs ys : List InstId) :
    insertBefore i g (xs ++ ys) = insertBefore i g xs ++ insertBefore i g ys :=
  List.flatMap_append

theorem insertBefore_cons_self (i g : InstId) (rest : List InstId) :
    insertBefore i g (i :: rest) = g :: i :: insertBefore i g rest := by
  simp [insertBefore]

theorem insertBefore_cons_of_ne {j : InstId} (h : j ≠ i) (rest : List InstId) :
    insertBefore i g (j :: rest) = j :: insertBefore i g rest := by
  simp [insertBefore, h]

theorem insertBefore_of_notMem {insts : List InstId} (h : i ∉ insts) :
    insertBefore i g insts = insts := by
  induction insts with
  | nil => rfl
  | cons j rest ih =>
    obtain ⟨hj, hrest⟩ := List.ne_and_not_mem_of_not_mem_cons h
    rw [insertBefore_cons_of_ne hj.symm, ih hrest]

/-- Without the inserted instruction the list is the old one. -/
theorem filter_insertBefore_new (hig : i ≠ g) {insts : List InstId} (fresh : g ∉ insts) :
    (insertBefore i g insts).filter (fun k => !k == g) = insts := by
  induction insts with
  | nil => rfl
  | cons j rest ih =>
    obtain ⟨hj, hrest⟩ := List.ne_and_not_mem_of_not_mem_cons fresh
    by_cases hji : j = i
    · subst hji
      simp [insertBefore_cons_self, hig, ih hrest]
    · simp [insertBefore_cons_of_ne hji, hj.symm, ih hrest]

/-- Leaving out an instruction that is neither of the two commutes with the insertion. -/
theorem filter_insertBefore_of_ne {j : InstId} (hji : j ≠ i) (hjg : j ≠ g) (insts : List InstId) :
    (insertBefore i g insts).filter (fun k => !k == j) =
      insertBefore i g (insts.filter fun k => !k == j) := by
  induction insts with
  | nil => rfl
  | cons k rest ih =>
    by_cases hki : k = i
    · subst hki
      simp [insertBefore_cons_self, hji.symm, hjg.symm, ih]
    · by_cases hkj : k = j
      · subst hkj
        simp [insertBefore_cons_of_ne hki, ih]
      · simp [insertBefore_cons_of_ne hki, hkj, ih]

/-- First occurrences come with the inserted instruction before them. -/
theorem eraseDups_insertBefore (hig : i ≠ g) {insts : List InstId} (fresh : g ∉ insts) :
    (insertBefore i g insts).eraseDups = insertBefore i g insts.eraseDups := by
  induction hn : insts.length using Nat.strong_induction_on generalizing insts with
  | _ n ih =>
    cases insts with
    | nil => rfl
    | cons j rest =>
      obtain ⟨hj, hrest⟩ := List.ne_and_not_mem_of_not_mem_cons fresh
      by_cases hji : j = i
      · -- after the first `i` neither it nor `g` comes again
        subst hji
        have hgone : j ∉ (rest.filter fun k => !k == j).eraseDups := by
          simp [List.mem_eraseDups]
        rw [insertBefore_cons_self, List.eraseDups_cons, List.filter_cons_of_pos (by simpa using hig),
          filter_insertBefore_new hig hrest, List.eraseDups_cons, insertBefore_cons_self,
          insertBefore_of_notMem hgone]
      · have hshort : (rest.filter fun k => !k == j).length < n := by
          have := List.length_filter_le (fun k => !k == j) rest
          simp only [List.length_cons] at hn
          omega
        have hfresh : g ∉ rest.filter fun k => !k == j := fun hh => hrest (List.mem_filter.mp hh).1
        rw [insertBefore_cons_of_ne hji, List.eraseDups_cons, filter_insertBefore_of_ne hji hj.symm,
          ih _ hshort hfresh rfl, List.eraseDups_cons, insertBefore_cons_of_ne hji]

end InsertBefore

namespace Program

variable {p : Program} {i g : InstId} {c : ConstGep}

theorem instruction?_materialize_new (fresh : g.index.toNat = p.instructions.size) :
    (p.materialize i g c).instruction? g = some (.gep c.sourceType c.base c.indices) := by
  simp only [instruction?, materialize, Array.getElem?_push, Array.size_modify, fresh, if_true]

theorem instruction?_materialize_self (hi : i.index.toNat < p.instructions.size) :
    (p.materialize i g c).instruction? i = (p.instruction? i).map (Instruction.withAddress (.inst g)) := by
  simp [instruction?, materialize, Array.getElem?_push, Nat.ne_of_lt hi, Array.getElem?_modify]

theorem instruction?_materialize_of_ne {j : InstId} (hj : j.index.toNat < p.instructions.size)
    (hji : j ≠ i) : (p.materialize i g c).instruction? j = p.instruction? j := by
  have hindex : i.index.toNat ≠ j.index.toNat := by
    intro hh
    apply hji
    cases i
    cases j
    exact congrArg InstId.mk (UInt32.toNat_inj.mp hh.symm)
  simp [instruction?, materialize, Array.getElem?_push, Nat.ne_of_lt hj, Array.getElem?_modify, hindex]

theorem instructionsOf_materialize (function : FunctionId) :
    (p.materialize i g c).instructionsOf function = insertBefore i g (p.instructionsOf function) := by
  have hfunction : (p.materialize i g c).function? function = (p.function? function).map fun f =>
      { f with blocks := f.blocks.map fun b => { b with insts := insertBefore i g b.insts } } := by
    simp [function?, materialize]
  unfold instructionsOf
  rw [hfunction]
  cases p.function? function with
  | none => rfl
  | some f => simp [Function.listing, insertBefore, List.flatMap_map, List.flatMap_assoc]

/-- The new instruction calls nothing, and the others call what they called. -/
theorem directCallee_materialize {j : InstId} (hj : j.index.toNat < p.instructions.size) :
    (p.materialize i g c).directCallee j = p.directCallee j := by
  unfold directCallee
  by_cases hji : j = i
  · subst hji
    rw [instruction?_materialize_self hj]
    cases p.instruction? j with
    | none => rfl
    | some inst => cases inst <;> rfl
  · rw [instruction?_materialize_of_ne hj hji]

theorem calleeBody_materialize {j : InstId} (hj : j.index.toNat < p.instructions.size) :
    calleeBody (p.materialize i g c) j = insertBefore i g (calleeBody p j) := by
  unfold calleeBody
  rw [directCallee_materialize hj]
  cases p.directCallee j with
  | none => rfl
  | some callee => exact instructionsOf_materialize callee

theorem stopsAt_index_false (p : Program) (j : InstId) : stopsAt p.index false j = j :: calleeBody p j := by
  change j :: (calleeBody p j ++ []) = _
  rw [List.append_nil]

/-- A listed instruction leads to the same stops, with the new one before every stop at `i`. -/
theorem flatMap_stopsAt_materialize (fresh : g.index.toNat = p.instructions.size)
    (nocall : p.instKind i ≠ .call) {j : InstId} (hj : j.index.toNat < p.instructions.size) :
    (insertBefore i g [j]).flatMap (stopsAt (p.materialize i g c).index false) =
      insertBefore i g (stopsAt p.index false j) := by
  have hnew : calleeBody (p.materialize i g c) g = [] := by
    simp [calleeBody, directCallee, instruction?_materialize_new fresh]
  have hbody : calleeBody (p.materialize i g c) j = insertBefore i g (calleeBody p j) :=
    calleeBody_materialize hj
  rw [stopsAt_index_false]
  by_cases hji : j = i
  · subst hji
    have hnone : calleeBody p j = [] := by simp [calleeBody, (no_call_of_instKind nocall).1]
    rw [hnone] at hbody ⊢
    simp [insertBefore_cons_self, stopsAt_index_false, hnew, hbody]
  · rw [insertBefore_cons_of_ne hji, insertBefore_cons_of_ne hji, ← hbody]
    simp [stopsAt_index_false]

/-- A walk comes across the new instruction right before the old one, wherever that is. -/
theorem trace_materialize (valid : p.validate = .ok ()) (fresh : g.index.toNat = p.instructions.size)
    (nocall : p.instKind i ≠ .call) {walker : Walker} (uses : walker.traverseArgumentUses = false)
    (function : FunctionId) :
    walker.trace (p.materialize i g c).index function =
      insertBefore i g (walker.trace p.index function) := by
  have hrun : ∀ insts : List InstId, (∀ j ∈ insts, j ∈ p.listing) →
      (insertBefore i g insts).flatMap (stopsAt (p.materialize i g c).index false) =
        insertBefore i g (insts.flatMap (stopsAt p.index false)) := by
    intro insts listed
    induction insts with
    | nil => rfl
    | cons j rest ih =>
      have hj := listed_lt_size valid (listed j (by simp))
      have hrest := ih fun k hk => listed k (by simp [hk])
      rw [← List.singleton_append, insertBefore_append, List.flatMap_append, List.flatMap_append,
        insertBefore_append, List.flatMap_singleton, hrest, flatMap_stopsAt_materialize fresh nocall hj]
  have hlisted : (p.materialize i g c).index.instructionsOf function =
      insertBefore i g (p.instructionsOf function) := instructionsOf_materialize function
  unfold Walker.trace
  rw [uses, hlisted]
  exact hrun _ fun j hj => mem_listing_of_mem_instructionsOf hj

/-- De-duplication keeps the pair together, since both occur for the first time at the same place. -/
theorem classified_materialize (valid : p.validate = .ok ())
    (fresh : g.index.toNat = p.instructions.size) (hi : i.index.toNat < p.instructions.size)
    (nocall : p.instKind i ≠ .call) {walker : Walker} (uses : walker.traverseArgumentUses = false)
    (function : FunctionId) :
    walker.classified (p.materialize i g c).index function =
      insertBefore i g (walker.classified p.index function) := by
  have hig : i ≠ g := by
    rintro rfl
    omega
  have hunlisted : g ∉ walker.trace p.index function := by
    intro hg
    have := listed_lt_size valid (mem_listing_of_mem_trace hg)
    omega
  unfold Walker.classified
  rw [trace_materialize valid fresh nocall uses]
  split
  next => exact eraseDups_insertBefore hig hunlisted
  next => rfl

theorem memoryAddress_cases {v : Value} (address : p.memoryAddress i = some v) :
    (∃ type, p.instruction? i = some (.load type v)) ∨ ∃ value, p.instruction? i = some (.store value v) := by
  unfold memoryAddress at address
  split at address
  next type _ hinst =>
    cases Option.some.inj address
    exact .inl ⟨type, hinst⟩
  next value _ hinst =>
    cases Option.some.inj address
    exact .inr ⟨value, hinst⟩
  next => cases address

theorem chainOf_of_address {id : ConstId} (address : p.memoryAddress i = some (.const id))
    (constant : p.constant? id = some c) : p.chainOf i = some ⟨c.sourceType, c.indices⟩ := by
  unfold chainOf
  obtain ⟨_, hinst⟩ | ⟨_, hinst⟩ := memoryAddress_cases address <;> simp [hinst, constant]

end Program

theorem Chain.hits_congr {p q : Program} (types : p.types = q.types) (globals : p.globals = q.globals)
    (attributeGlobals : Bool) (chain : Chain) (owner : String) (field : UInt64) :
    chain.hits p attributeGlobals owner field = chain.hits q attributeGlobals owner field := by
  rw [← chain.occurrences_events p attributeGlobals .address,
    ← chain.occurrences_events q attributeGlobals .address, Chain.events_congr types globals]

namespace Program

variable {p : Program} {i g : InstId} {c : ConstGep} {id : ConstId}

theorem instKind_ne_call_of_address {v : Value} (address : p.memoryAddress i = some v) :
    i.index.toNat < p.instructions.size ∧ p.instKind i ≠ .call := by
  unfold instKind
  obtain ⟨_, hinst⟩ | ⟨_, hinst⟩ := memoryAddress_cases address
  · exact ⟨(Array.getElem?_eq_some_iff.mp hinst).1, by simp [hinst]⟩
  · exact ⟨(Array.getElem?_eq_some_iff.mp hinst).1, by simp [hinst]⟩

/-- The new instruction has the hits that the load or store had before, and nothing is left to that one. -/
theorem hits_materialize (address : p.memoryAddress i = some (.const id))
    (constant : p.constant? id = some c) (fresh : g.index.toNat = p.instructions.size)
    (attributeGlobals : Bool) (owner : String) (field : UInt64) :
    (p.materialize i g c).hits attributeGlobals owner field g = p.hits attributeGlobals owner field i ∧
      (p.materialize i g c).hits attributeGlobals owner field i = 0 := by
  have hi := (instKind_ne_call_of_address address).1
  constructor
  · have hnew : (p.materialize i g c).chainOf g = some ⟨c.sourceType, c.indices⟩ := by
      simp [chainOf, instruction?_materialize_new fresh]
    rw [hits, hits, hnew, chainOf_of_address address constant]
    exact Chain.hits_congr (p := p.materialize i g c) (q := p) rfl rfl attributeGlobals _ owner field
  · have hnone : (p.materialize i g c).chainOf i = none := by
      unfold chainOf
      rw [instruction?_materialize_self hi]
      obtain ⟨_, hinst⟩ | ⟨_, hinst⟩ := memoryAddress_cases address <;>
        simp [hinst, Instruction.withAddress]
    rw [hits, hnone]

theorem hits_materialize_of_ne {j : InstId} (hj : j.index.toNat < p.instructions.size) (hji : j ≠ i)
    (attributeGlobals : Bool) (owner : String) (field : UInt64) :
    (p.materialize i g c).hits attributeGlobals owner field j = p.hits attributeGlobals owner field j := by
  rw [← occurrences_accessesOf, ← occurrences_accessesOf,
    accessesOf_congr (p := p.materialize i g c) (q := p) rfl rfl rfl
      (instruction?_materialize_of_ne hj hji)]

/-- The old instruction has no hits any more and the new one has them all. -/
theorem sum_hits_insertBefore (address : p.memoryAddress i = some (.const id))
    (constant : p.constant? id = some c) (fresh : g.index.toNat = p.instructions.size)
    (attributeGlobals : Bool) (owner : String) (field : UInt64) {insts : List InstId}
    (hinsts : ∀ j ∈ insts, j.index.toNat < p.instructions.size) :
    ((insertBefore i g insts).map ((p.materialize i g c).hits attributeGlobals owner field)).sum =
      (insts.map (p.hits attributeGlobals owner field)).sum := by
  induction insts with
  | nil => rfl
  | cons j rest ih =>
    have hrest := ih fun k hk => hinsts k (by simp [hk])
    by_cases hji : j = i
    · subst hji
      obtain ⟨hnew, hold⟩ := hits_materialize address constant fresh attributeGlobals owner field
      simp only [insertBefore_cons_self, List.map_cons, List.sum_cons, hnew, hold, hrest, Nat.zero_add]
    · have hsame := hits_materialize_of_ne (g := g) (c := c) (hinsts j (by simp)) hji
        attributeGlobals owner field
      simp only [insertBefore_cons_of_ne hji, List.map_cons, List.sum_cons, hsame, hrest]

theorem starts_materialize (o : Options) : (p.materialize i g c).starts o = p.starts o := by
  have hrel : List.Forall₂ (fun f f' : Function => f.name = f'.name ∧ (f.blocks = [] ↔ f'.blocks = []))
      p.functions.toList (p.materialize i g c).functions.toList := by
    simp only [materialize, Array.toList_map]
    exact List.forall₂_map_right_iff.mpr (List.forall₂_same.mpr fun f _ => ⟨rfl, by simp⟩)
  exact (starts_eq_of_rel hrel (fun _ _ h => h) o).symm

end Program

/-- Let a load or a store of a program that passes the reference check take its address from a constant. If the
address is computed by a new instruction right before every listing of it instead, an analysis that does not follow
uses of arguments gives the same table. -/
theorem analyze_materialize_table {p : Program} (valid : p.validate = .ok ()) {i : InstId} {id : ConstId}
    {c : ConstGep} (address : p.memoryAddress i = some (.const id)) (constant : p.constant? id = some c)
    {g : InstId} (fresh : g.index.toNat = p.instructions.size) (o : Options)
    (uses : o.traverseArgumentUses = false) :
    (analyze (p.materialize i g c).index o).table = (analyze p.index o).table := by
  obtain ⟨hi, nocall⟩ := Program.instKind_ne_call_of_address address
  rw [analyze_table, analyze_table]
  apply Table.ofAccesses_congr
  intro owner field
  rw [occurrences_walkAccesses, occurrences_walkAccesses, walkedHeat, walkedHeat]
  have hstarts : (p.materialize i g c).index.starts o = p.index.starts o := Program.starts_materialize o
  rw [hstarts]
  congr 1
  apply List.map_congr_left
  intro root _
  have hclassified : (Walker.ofOptions o).classified (p.materialize i g c).index root =
      insertBefore i g ((Walker.ofOptions o).classified p.index root) :=
    p.classified_materialize valid fresh hi nocall uses root
  rw [heatFrom, heatFrom, ← coe_classified, ← coe_classified, hclassified, Multiset.map_coe, Multiset.map_coe,
    Multiset.sum_coe, Multiset.sum_coe]
  apply Program.sum_hits_insertBefore address constant fresh
  intro j hj
  exact Program.listed_lt_size valid (Program.mem_listing_of_mem_trace (Walker.mem_classified_iff.mp hj))

/-- A store by a constant address that is listed twice and stands in a callee too, beside a load by the same address. -/
def constantStore : Program where
  types := #[.int 32, .struct (some "pair") [⟨0⟩, ⟨0⟩]]
  globals := #[{ name := "state", valueType := ⟨1⟩ }]
  functions := #[{ name := "main", blocks := [{ insts := [⟨0⟩, ⟨1⟩] }, { insts := [⟨0⟩] }] },
    { name := "callee", blocks := [{ insts := [⟨2⟩, ⟨0⟩] }] }]
  instructions := #[.store (.constInt 7) (.const ⟨0⟩), .call (.direct ⟨1⟩) [.global ⟨0⟩],
    .load ⟨0⟩ (.const ⟨0⟩)]
  constants := #[⟨⟨1⟩, .global ⟨0⟩, [.constInt 0, .constInt 1]⟩]

theorem analyze_materialize_table_constantStore :
    let p := constantStore
    let q := p.materialize ⟨0⟩ ⟨3⟩ ⟨⟨1⟩, .global ⟨0⟩, [.constInt 0, .constInt 1]⟩
    let o : Options := { Options.baseline with deduplicate := false }
    p.validate = .ok () ∧ p.memoryAddress ⟨0⟩ = some (.const ⟨0⟩) ∧
      q.listing = [⟨3⟩, ⟨0⟩, ⟨1⟩, ⟨3⟩, ⟨0⟩, ⟨2⟩, ⟨3⟩, ⟨0⟩] ∧
      (analyze q.index o).table = (analyze p.index o).table ∧
      (analyze p.index o).table.count "pair" 1 = 4 :=
  ⟨rfl, rfl, by simp [Program.listing, Function.listing, Program.materialize, constantStore, insertBefore],
    analyze_materialize_table rfl rfl rfl rfl _ rfl, by decide⟩

end HotFields
