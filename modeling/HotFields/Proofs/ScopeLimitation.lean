import HotFields.Proofs.ValidReferences
import HotFields.Proofs.WalkAgreement

namespace HotFields

namespace Program

/-- A program with one more function and more instructions. -/
def extend (p : Program) (g : Function) (added : Array Instruction) : Program :=
  { p with functions := p.functions.push g, instructions := p.instructions ++ added }

variable {p : Program} {g : Function} {added : Array Instruction}

theorem function?_extend {f : FunctionId} (hf : f.index.toNat < p.functions.size) :
    (p.extend g added).function? f = p.function? f := by
  simp [function?, extend, Array.getElem?_push, Nat.ne_of_lt hf]

theorem instruction?_extend {i : InstId} (hi : i.index.toNat < p.instructions.size) :
    (p.extend g added).instruction? i = p.instruction? i :=
  Array.getElem?_append_left hi

theorem functionIds_extend {p : Program} (few : p.functions.size + 1 < UInt32.size) (g : Function)
    (added : Array Instruction) :
    (p.extend g added).functionIds = p.functionIds ++ [⟨p.functions.size.toUInt32⟩] := by
  have hbefore : p.functions.size.toUInt32.toNat = p.functions.size :=
    UInt32.toNat_ofNat_of_lt' (Nat.lt_of_succ_lt few)
  have hafter : (p.functions.size + 1).toUInt32.toNat = p.functions.size + 1 := UInt32.toNat_ofNat_of_lt' few
  simp only [functionIds, extend, Array.size_push, hbefore, hafter, List.range_succ, List.map_append, List.map_singleton]

theorem isRoot_extend {f : FunctionId} (o : Options) (hf : f.index.toNat < p.functions.size) :
    isRoot (p.extend g added) o f = isRoot p o f := by
  simp only [isRoot, hasBody, functionName, function?_extend hf]

/-- The added function has another name than the entry symbol, so that it is no root in entry scope. -/
theorem rootsOf_extend {o : Options} (few : p.functions.size + 1 < UInt32.size) (scope : o.scope = .entry)
    (name : g.name ≠ o.entrySymbol) : rootsOf (p.extend g added) o = rootsOf p o := by
  have hold : p.functionIds.filter (isRoot (p.extend g added) o) = p.functionIds.filter (isRoot p o) := by
    apply List.filter_congr
    intro f hf
    exact isRoot_extend o (index_lt_of_mem_functionIds hf)
  have hid : p.functions.size.toUInt32.toNat = p.functions.size :=
    UInt32.toNat_ofNat_of_lt' (Nat.lt_of_succ_lt few)
  have hg : (p.extend g added).function? ⟨p.functions.size.toUInt32⟩ = some g := by
    simp [function?, extend, hid]
  have hroot : isRoot (p.extend g added) o ⟨p.functions.size.toUInt32⟩ = false := by
    simp [isRoot, functionName, hg, Options.walksAllFunctions, scope, name]
  unfold rootsOf
  rw [functionIds_extend few, List.filter_append, hold]
  simp [hroot]

/-- Use lists of operands that no added instruction has stay as they were. -/
theorem users_extend {v : Value} (hv : v.isConstInt = false) (valid : p.validate = .ok ())
    (fresh : ∀ i ∈ g.listing, p.instructions.size ≤ i.index.toNat)
    (apart : ∀ inst ∈ added, ¬inst.Has v) :
    (p.extend g added).index.users v = p.index.users v := by
  have hlisting : (p.extend g added).listing = p.listing ++ g.listing := by
    simp [listing, extend]
  have hold : p.listing.filter ((p.extend g added).mentions v) = p.listing.filter (p.mentions v) := by
    apply List.filter_congr
    intro i hi
    simp only [mentions, instruction?_extend (listed_lt_size valid hi)]
  have hnew : g.listing.filter ((p.extend g added).mentions v) = [] := by
    apply List.filter_eq_nil_iff.mpr
    intro i hi
    have hadded : (p.extend g added).instruction? i = added[i.index.toNat - p.instructions.size]? :=
      Array.getElem?_append_right (fresh i hi)
    unfold mentions
    cases hinst : (p.extend g added).instruction? i with
    | none => simp
    | some inst =>
      have hm : inst ∈ added := Array.mem_of_getElem? (hadded.symm.trans hinst)
      simpa using mt Instruction.has_iff_mem_operands.mpr (apart inst hm)
  rw [users_index hv, users_index hv, hlisting, List.filter_append, hold, hnew, List.append_nil]

/-- A callee of an old instruction is an old function: the reference check has seen it. -/
theorem calleeBody_extend {i : InstId} (valid : p.validate = .ok ()) (hi : i ∈ p.listing) :
    calleeBody (p.extend g added) i = calleeBody p i := by
  have hsame : (p.extend g added).directCallee i = p.directCallee i := by
    simp only [directCallee, instruction?_extend (listed_lt_size valid hi)]
  unfold calleeBody
  rw [hsame]
  cases hc : p.directCallee i with
  | none => rfl
  | some callee => simp only [instructionsOf, function?_extend (callee_lt_size valid hc)]

/-- A listed instruction leads where it led before, if its call arguments gain no users. -/
theorem stopsAt_extend {followUses : Bool} {i : InstId} (valid : p.validate = .ok ())
    (fresh : ∀ j ∈ g.listing, p.instructions.size ≤ j.index.toNat) (hi : i ∈ p.listing)
    (apart : followUses = true → ∀ v ∈ p.handedValues i, ∀ inst ∈ added, ¬inst.Has v) :
    stopsAt (p.extend g added).index followUses i = stopsAt p.index followUses i := by
  have hargs : (p.extend g added).callArguments i = p.callArguments i := by
    simp only [callArguments, instruction?_extend (listed_lt_size valid hi)]
  have husers : followUses = true →
      argumentUsers (p.extend g added).index i = argumentUsers p.index i := by
    intro hf
    unfold argumentUsers
    change ((p.extend g added).callArguments i |>.filter _).flatMap _ = _
    rw [hargs]
    apply List.flatMap_congr
    intro v hv
    obtain ⟨hv, hc⟩ := List.mem_filter.mp hv
    have hconst : v.isConstInt = false := by simpa using hc
    exact users_extend hconst valid fresh (apart hf v (mem_handedValues_iff.mpr ⟨hv, hconst⟩))
  have hcallee : calleeBody (p.extend g added) i = calleeBody p i := calleeBody_extend valid hi
  change i :: (calleeBody (p.extend g added) i ++
      if followUses then argumentUsers (p.extend g added).index i else []) =
    i :: (calleeBody p i ++ if followUses then argumentUsers p.index i else [])
  rw [hcallee]
  split
  next hf => rw [husers hf]
  next => rfl

end Program

/-- Let a program pass the reference check, and let it grow by a function that is not called like the entry symbol and
lists added instructions only, to no more functions than 32 bits can count. If no added instruction shares an operand with
a call in a root, as far as uses of arguments are followed, an analysis in entry scope gives the same table. -/
theorem analyze_extend_table (p : Program) (o : Options) (g : Function) (added : Array Instruction)
    (few : (p.extend g added).functions.size < UInt32.size) (valid : p.validate = .ok ()) (scope : o.scope = .entry)
    (name : g.name ≠ o.entrySymbol) (fresh : ∀ i ∈ g.listing, p.instructions.size ≤ i.index.toNat)
    (apart : o.traverseArgumentUses = true → ∀ f ∈ p.functions.toList, f.IsRoot o → ∀ i ∈ f.listing,
      ∀ v ∈ p.handedValues i, ∀ inst ∈ added, ¬inst.Has v) :
    (analyze (p.extend g added).index o).table = (analyze p.index o).table := by
  have hroots : rootsOf (p.extend g added) o = rootsOf p o :=
    p.rootsOf_extend (by simpa [Program.extend] using few) scope name
  rw [analyze_table, analyze_table]
  change Table.ofAccesses (walkAccesses _ o (rootsOf (p.extend g added) o)) = _
  rw [hroots]
  congr 1
  apply List.flatMap_congr
  intro root hroot
  have hsize := Program.index_lt_of_mem_functionIds (List.mem_filter.mp hroot).1
  obtain ⟨f, hf, hstart⟩ := (p.isRoot_iff_startsAt o root).mp (List.mem_filter.mp hroot).2
  have hbody : p.instructionsOf root = f.listing := by
    simp only [Program.instructionsOf, hf]
  have hlisted : (p.extend g added).instructionsOf root = p.instructionsOf root := by
    simp only [Program.instructionsOf, Program.function?_extend hsize]
  refine (Walker.accesses_congr (p := p.index) (q := (p.extend g added).index) rfl rfl rfl
    (Walker.ofOptions o) hlisted.symm ?_ ?_).symm
  · intro i hi
    have hi' := Program.mem_listing_of_mem_instructionsOf hi
    have hmem : f ∈ p.functions.toList := Array.mem_toList_iff.mpr (Array.mem_of_getElem? hf)
    exact (Program.stopsAt_extend valid fresh hi' fun ht => apart ht f hmem hstart i (hbody ▸ hi)).symm
  · intro i hi
    have hi' := Program.mem_listing_of_mem_trace hi
    exact (Program.instruction?_extend (Program.listed_lt_size valid hi')).symm

/-- An entry function that hands its argument to a declaration. -/
def handedArgument : Program where
  types := #[.int 32, .struct (some "pair") [⟨0⟩, ⟨0⟩]]
  functions := #[{ name := "main", params := 1, blocks := [{ insts := [⟨0⟩, ⟨1⟩] }] }, { name := "sink" }]
  instructions := #[.gep ⟨1⟩ (.argument ⟨0⟩ 0) [.constInt 0, .constInt 1],
    .call (.direct ⟨1⟩) [.argument ⟨0⟩ 0, .constInt 7]]

-- the added function computes an address in the same structure, and it calls the entry function
theorem analyze_extend_table_handedArgument :
    let g : Function := { name := "helper", params := 1, blocks := [{ insts := [⟨2⟩, ⟨3⟩] }] }
    let added := #[.gep ⟨1⟩ (.argument ⟨2⟩ 0) [.constInt 0, .constInt 0],
      .call (.direct ⟨0⟩) [.argument ⟨2⟩ 0, .constInt 7]]
    handedArgument.validate = .ok () ∧ (analyze handedArgument.index {}).table.count "pair" 1 = 1 ∧
      (analyze (handedArgument.extend g added).index {}).table = (analyze handedArgument.index {}).table :=
  ⟨by rfl, by decide,
    analyze_extend_table handedArgument {} _ _ (by decide) (by rfl) rfl (by decide) (by decide) (by decide)⟩

/-- No reference dangles, whatever the number of declarations. -/
theorem validate_crowded (declarations : Nat) : (crowded declarations).validate = .ok () := by
  have hlisting : (crowded declarations).listing = [⟨0⟩] := by
    simp [Program.listing, crowded, Function.listing]
  have htypes : (crowded declarations).types.size = 2 := rfl
  refine Program.validate_eq_ok_iff_closed.mpr ⟨?_, by simp [crowded], by simp [crowded], ?_, ?_⟩
  · simp [crowded, TypeDef.parts]
  · intro i hi
    obtain rfl : i = .gep ⟨1⟩ (.constInt 0) [.constInt 0, .constInt 1] := List.mem_singleton.mp hi
    refine ⟨by simp [Instruction.type?, htypes], by simp [Instruction.callee?], fun v hv => ?_⟩
    have hint : v = .constInt 0 ∨ v = .constInt 1 := by
      simpa [Instruction.operands] using Instruction.has_iff_mem_operands.mp hv
    rcases hint with rfl | rfl <;> trivial
  · rw [hlisting]
    simp [crowded]

/-- A declaration more makes the functions of a program uncountable for 32 bits. The entry function is then not found. -/
theorem analyze_extend_table_ne_crowded :
    let p := crowded (2 ^ 32 - 2)
    let g : Function := { name := "declared" }
    let o : Options := {}
    p.validate = .ok () ∧ o.scope = .entry ∧ g.name ≠ o.entrySymbol ∧
      (∀ i ∈ g.listing, p.instructions.size ≤ i.index.toNat) ∧
      (∀ f ∈ p.functions.toList, f.IsRoot o → ∀ i ∈ f.listing, ∀ v ∈ p.handedValues i,
        ∀ inst ∈ (#[] : Array Instruction), ¬inst.Has v) ∧
      (analyze (p.extend g #[]).index o).table ≠ (analyze p.index o).table := by
  intro p g o
  have hsize : p.functions.size = 2 ^ 32 - 1 := size_crowded (2 ^ 32 - 2)
  have hmore : (p.extend g #[]).index.functions.size = UInt32.size := by
    change (p.functions.push g).size = _
    rw [Array.size_push, hsize]
    rfl
  have few : p.index.functions.size < UInt32.size := by
    change p.functions.size < _
    rw [hsize]
    decide
  refine ⟨validate_crowded _, rfl, by decide, by simp [g, Function.listing], by simp, fun same => ?_⟩
  have hcount : ((analyze p.index o).table.count "pair" 1).toNat = 1 := by
    rw [count_eq_heat few, heat_crowded]
    rfl
  rw [← same, analyze_table_of_uncounted hmore] at hcount
  cases hcount

end HotFields
