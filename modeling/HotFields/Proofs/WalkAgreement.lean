import HotFields.Proofs.CountFormula
import HotFields.Proofs.UseLists

namespace HotFields

namespace Program

variable {p : Program}

theorem index_lt_of_mem_functionIds {f : FunctionId} (hf : f ∈ p.functionIds) :
    f.index.toNat < p.functions.size := by
  obtain ⟨n, hn, rfl⟩ := List.mem_map.mp hf
  have hcount : n < p.functions.size.toUInt32.toNat := List.mem_range.mp hn
  have hwhole : p.functions.size.toUInt32.toNat ≤ p.functions.size := Nat.mod_le _ _
  have hword := p.functions.size.toUInt32.toNat_lt
  have hid : n.toUInt32.toNat = n := UInt32.toNat_ofNat_of_lt' (Nat.lt_trans hcount hword)
  change n.toUInt32.toNat < _
  omega

theorem mem_listing_of_mem_instructionsOf {f : FunctionId} {i : InstId}
    (hi : i ∈ p.instructionsOf f) : i ∈ p.listing := by
  unfold instructionsOf at hi
  split at hi
  next fn hf =>
    exact List.mem_flatMap.mpr ⟨fn, Array.mem_toList_iff.mpr (Array.mem_of_getElem? hf), hi⟩
  next => simp at hi

/-- A callee lists its body and use lists hold listed instructions, so a walk never leaves the listing. -/
theorem mem_listing_of_mem_stopsAt {followUses : Bool} {i j : InstId} (hi : i ∈ p.listing)
    (hj : j ∈ stopsAt p.index followUses i) : j ∈ p.listing := by
  rcases List.mem_cons.mp hj with rfl | hj
  · exact hi
  rcases List.mem_append.mp hj with hj | hj
  · unfold calleeBody at hj
    split at hj
    next callee _ => exact mem_listing_of_mem_instructionsOf hj
    next => simp at hj
  · split at hj
    next =>
      obtain ⟨v, hv, hj⟩ := List.mem_flatMap.mp hj
      have hconst : v.isConstInt = false := by simpa using (List.mem_filter.mp hv).2
      exact mem_listing_of_mem_users hconst hj
    next => simp at hj

theorem mem_listing_of_mem_trace {walker : Walker} {f : FunctionId} {j : InstId}
    (hj : j ∈ walker.trace p.index f) : j ∈ p.listing := by
  obtain ⟨i, hi, hj⟩ := List.mem_flatMap.mp hj
  exact mem_listing_of_mem_stopsAt (mem_listing_of_mem_instructionsOf hi) hj

end Program

theorem rel_getElem? {α : Type} {R : α → α → Prop} {xs ys : List α} (h : List.Forall₂ R xs ys)
    (k : Nat) : Option.Rel R xs[k]? ys[k]? := by
  induction h generalizing k with
  | nil => simp
  | cons hxy _ ih =>
    cases k with
    | zero => simpa using Option.Rel.some hxy
    | succ k => simpa using ih k

namespace Program

variable {p q : Program} {R : Function → Function → Prop}

theorem rel_function? (h : List.Forall₂ R p.functions.toList q.functions.toList)
    (function : FunctionId) : Option.Rel R (p.function? function) (q.function? function) := by
  have hget := rel_getElem? h function.index.toNat
  simpa [function?] using hget

theorem functionIds_eq_of_rel (h : List.Forall₂ R p.functions.toList q.functions.toList) :
    p.functionIds = q.functionIds := by
  have hsize : p.functions.size = q.functions.size := by simpa using h.length_eq
  rw [functionIds, functionIds, hsize]

/-- Functions that agree in their names and in having blocks are started from alike. -/
theorem starts_eq_of_rel (h : List.Forall₂ R p.functions.toList q.functions.toList)
    (hR : ∀ f g, R f g → f.name = g.name ∧ (f.blocks = [] ↔ g.blocks = [])) (o : Options) :
    p.starts o = q.starts o := by
  unfold starts
  rw [functionIds_eq_of_rel h]
  apply List.filter_congr
  intro function _
  have hstart : p.StartsAt o function ↔ q.StartsAt o function := by
    have hrel := rel_function? h function
    unfold StartsAt
    generalize p.function? function = f at hrel ⊢
    generalize q.function? function = g at hrel ⊢
    cases hrel with
    | none => simp
    | some hfg =>
      obtain ⟨hname, hblocks⟩ := hR _ _ hfg
      simp [Function.IsRoot, hname, hblocks]
  simp only [hstart]

end Program

/-- Chains are followed by types and globals alone. -/
theorem Chain.events_congr {p q : Program} (types : p.types = q.types) (globals : p.globals = q.globals)
    (attributeGlobals : Bool) (origin : Origin) (chain : Chain) :
    chain.events p attributeGlobals origin = chain.events q attributeGlobals origin := by
  have hindex : p.constantIndex = q.constantIndex := by
    funext v
    cases v <;> simp [Program.constantIndex, Program.global?, globals]
  have hname : p.structName = q.structName := by
    funext t
    simp [Program.structName, Program.type?, types]
  have hglobal : p.globalType = q.globalType := by
    funext v
    cases v <;> simp [Program.globalType, Program.global?, globals]
  have hinner : p.advance = q.advance := by
    funext t index
    simp [Program.advance_eq_inner, Program.inner, Program.type?, types]
  rw [events_eq_accessesFrom, events_eq_accessesFrom]
  generalize some chain.sourceType = cursor
  induction chain.indices.tail generalizing cursor with
  | nil => cases cursor <;> rfl
  | cons operand rest ih =>
    cases cursor with
    | none => rfl
    | some t => simp only [accessesFrom, stepAccesses, globalOwner, hindex, hname, hglobal, hinner, ih]

/-- The accesses of an instruction depend on it and on three arenas, not on functions. -/
theorem accessesOf_congr {p q : Program} (types : p.types = q.types) (globals : p.globals = q.globals)
    (constants : p.constants = q.constants) {i : InstId}
    (hi : p.instruction? i = q.instruction? i) (attributeGlobals : Bool) :
    accessesOf p attributeGlobals i = accessesOf q attributeGlobals i := by
  have hchain : p.constantChain = q.constantChain := by
    funext v
    cases v <;> simp [Program.constantChain, Program.constant?, constants]
  have hclassify : classify p i = classify q i := by
    simp only [classify, Program.instKind, Program.addressChain, Program.memoryAddress, hi, hchain]
  unfold accessesOf
  rw [hclassify]
  simp only [Chain.events_congr types globals]

/-- A walk consults the listing of its function, what each listed instruction leads to, and the instructions
that it comes across. -/
theorem Walker.accesses_congr {p q : IndexedProgram} (types : p.types = q.types)
    (globals : p.globals = q.globals) (constants : p.constants = q.constants) (walker : Walker)
    {function : FunctionId} (listed : p.instructionsOf function = q.instructionsOf function)
    (stops : ∀ i ∈ p.instructionsOf function,
      stopsAt p walker.traverseArgumentUses i = stopsAt q walker.traverseArgumentUses i)
    (insts : ∀ i ∈ walker.trace p function, p.instruction? i = q.instruction? i) :
    walker.accesses p function = walker.accesses q function := by
  have htrace : walker.trace p function = walker.trace q function := by
    unfold trace
    rw [← listed]
    exact List.flatMap_congr stops
  have hclassified : walker.classified p function = walker.classified q function := by
    rw [classified, htrace]
    rfl
  unfold accesses
  rw [← hclassified]
  apply List.flatMap_congr
  intro i hi
  exact accessesOf_congr types globals constants (insts i (mem_classified_iff.mp hi)) _

end HotFields
