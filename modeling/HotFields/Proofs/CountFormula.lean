import HotFields.Proofs.ChainPositions
import HotFields.Proofs.PassRun
import Mathlib.Algebra.Order.BigOperators.Group.Multiset
import Mathlib.Data.List.Forall2
import Mathlib.Data.Multiset.Bind

namespace HotFields

/-- A function with a block that carries the entry symbol, or any function with a block in full scope. -/
def Function.IsRoot (o : Options) (f : Function) : Prop :=
  f.blocks ≠ [] ∧ (f.name = o.entrySymbol ∨ o.scope = .allFunctions)

instance (o : Options) : DecidablePred (Function.IsRoot o) := fun f =>
  inferInstanceAs (Decidable (f.blocks ≠ [] ∧ (f.name = o.entrySymbol ∨ o.scope = .allFunctions)))

/-- The id of a function that an analysis starts from. -/
def Program.StartsAt (p : Program) (o : Options) (function : FunctionId) : Prop :=
  ∃ f, p.function? function = some f ∧ f.IsRoot o

theorem Program.isRoot_iff_startsAt (p : Program) (o : Options) (function : FunctionId) :
    isRoot p o function = true ↔ p.StartsAt o function := by
  unfold isRoot hasBody functionName StartsAt
  cases hf : p.function? function with
  | none => simp
  | some f => simp [Function.IsRoot, Options.walksAllFunctions, or_comm]

instance (p : Program) (o : Options) : DecidablePred (p.StartsAt o) := fun function =>
  decidable_of_iff _ (p.isRoot_iff_startsAt o function)

/-- The functions that an analysis starts from, as far as they have ids. -/
def Program.starts (p : Program) (o : Options) : List FunctionId :=
  p.functionIds.filter fun function => p.StartsAt o function

theorem Program.decide_startsAt (p : Program) (o : Options) :
    (fun function => decide (p.StartsAt o function)) = isRoot p o := by
  funext function
  rw [Bool.eq_iff_iff, decide_eq_true_iff, p.isRoot_iff_startsAt o function]

theorem Program.rootsOf_eq_starts (p : Program) (o : Options) : rootsOf p o = p.starts o := by
  rw [starts, p.decide_startsAt o]
  rfl

/-- The instructions in the body of the function that an instruction calls directly. -/
def Program.calledBody (p : Program) (i : InstId) : List InstId :=
  match p.instruction? i with
  | some (.call (.direct callee) _) => ((p.function? callee).map Function.listing).getD []
  | _ => []

/-- The arguments of a call, direct or indirect, without the integers among them. -/
def Program.handedValues (p : Program) (i : InstId) : List Value :=
  match p.instruction? i with
  | some (.call _ args) => args.filter fun v => !v.isConstInt
  | _ => []

/-- The instructions that listed ones lead to, each as often as there is a way to it: the listed ones themselves, the
bodies that they call directly, and the users of the values that they hand over. -/
def ways (p : IndexedProgram) (o : Options) (listed : List InstId) : Multiset InstId :=
  let listed : Multiset InstId := listed
  listed + listed.bind (fun i => (p.calledBody i : Multiset InstId)) +
    if o.traverseArgumentUses then
      listed.bind fun i => ((p.handedValues i).flatMap p.users : Multiset InstId)
    else 0

/-- The instructions that listed ones lead to, each once where instructions are de-duplicated. -/
def reached (p : IndexedProgram) (o : Options) (listed : List InstId) : Multiset InstId :=
  if o.deduplicate then (ways p o listed).dedup else ways p o listed

/-- The instructions of a direct callee, found in the arenas without the questions of the analysis. -/
theorem calleeBody_eq (p : Program) (i : InstId) : calleeBody p i = p.calledBody i := by
  unfold calleeBody Program.directCallee Program.calledBody
  cases p.instruction? i with
  | none => rfl
  | some inst =>
    cases inst with
    | call callee args =>
      cases callee with
      | direct f =>
        change p.instructionsOf f = ((p.function? f).map Function.listing).getD []
        unfold Program.instructionsOf
        cases p.function? f <;> rfl
      | indirect target => rfl
    | _ => rfl

theorem argumentUsers_eq (p : IndexedProgram) (i : InstId) :
    argumentUsers p i = (p.handedValues i).flatMap p.users := by
  unfold argumentUsers Program.callArguments Program.handedValues
  cases p.instruction? i with
  | none => rfl
  | some inst => cases inst <;> rfl

theorem Program.mem_handedValues_iff {p : Program} {i : InstId} {v : Value} :
    v ∈ p.handedValues i ↔ v ∈ p.callArguments i ∧ v.isConstInt = false := by
  unfold callArguments handedValues
  cases p.instruction? i with
  | none => simp
  | some inst => cases inst <;> simp

/-- A trace without its order: sums over it can be taken part by part. -/
theorem coe_trace (p : IndexedProgram) (o : Options) (root : FunctionId) :
    ((Walker.ofOptions o).trace p root : Multiset InstId) = ways p o (p.instructionsOf root) := by
  have hstops : ∀ i, (stopsAt p o.traverseArgumentUses i : Multiset InstId) =
      i ::ₘ ((p.calledBody i : Multiset InstId) +
        if o.traverseArgumentUses then ((p.handedValues i).flatMap p.users : Multiset InstId) else 0) := by
    intro i
    rw [stopsAt, calleeBody_eq, argumentUsers_eq]
    cases o.traverseArgumentUses <;> simp
  have hbind : ((Walker.ofOptions o).trace p root : Multiset InstId) =
      (p.instructionsOf root : Multiset InstId).bind
        fun i => (stopsAt p o.traverseArgumentUses i : Multiset InstId) :=
    (Multiset.coe_bind _ _).symm
  rw [hbind, ways]
  simp only [hstops, Multiset.bind_cons, Multiset.bind_add, Multiset.map_id']
  cases o.traverseArgumentUses <;> simp

theorem nodup_eraseDups (insts : List InstId) : insts.eraseDups.Nodup := by
  induction hn : insts.length using Nat.strong_induction_on generalizing insts with
  | _ n ih =>
    cases insts with
    | nil => simp
    | cons i rest =>
      have hshort : (rest.filter fun j => !j == i).length < n := by
        have := List.length_filter_le (fun j => !j == i) rest
        simp only [List.length_cons] at hn
        omega
      rw [List.eraseDups_cons, List.nodup_cons]
      refine ⟨?_, ih _ hshort _ rfl⟩
      simp [List.mem_eraseDups]

theorem coe_eraseDups (insts : List InstId) :
    (insts.eraseDups : Multiset InstId) = (insts : Multiset InstId).dedup := by
  rw [Multiset.coe_dedup, Multiset.coe_eq_coe]
  apply (List.perm_ext_iff_of_nodup (nodup_eraseDups insts) (List.nodup_dedup insts)).mpr
  intro i
  rw [List.mem_eraseDups, List.mem_dedup]

theorem coe_classified (p : IndexedProgram) (o : Options) (root : FunctionId) :
    ((Walker.ofOptions o).classified p root : Multiset InstId) = reached p o (p.instructionsOf root) := by
  unfold Walker.classified reached
  rw [← coe_trace]
  cases hd : o.deduplicate with
  | false => simp [Walker.ofOptions, hd]
  | true => simp [Walker.ofOptions, hd, coe_eraseDups]

/-- The chain of an instruction: that of an address computation, or that of the constant address which a
load reads or a store writes. -/
def Program.chainOf (p : Program) (i : InstId) : Option Chain :=
  match p.instruction? i with
  | some (.gep sourceType _ indices) => some ⟨sourceType, indices⟩
  | some (.load _ (.const id)) => (p.constant? id).map fun c => ⟨c.sourceType, c.indices⟩
  | some (.store _ (.const id)) => (p.constant? id).map fun c => ⟨c.sourceType, c.indices⟩
  | _ => none

/-- The accesses of an instruction to a field of a structure. -/
def Program.hits (p : Program) (attributeGlobals : Bool) (owner : String) (field : UInt64)
    (i : InstId) : Nat :=
  match p.chainOf i with
  | some chain => chain.hits p attributeGlobals owner field
  | none => 0

/-- An instruction has at most one chain, whatever way it is found. -/
theorem Program.classify_eq_chainOf (p : Program) (i : InstId) :
    ∃ origin, classify p i = ((p.chainOf i).map (Found.mk origin)).toList := by
  unfold classify instKind addressChain memoryAddress chainOf
  cases p.instruction? i with
  | none => exact ⟨.address, rfl⟩
  | some inst =>
    cases inst with
    | gep sourceType base indices => exact ⟨.address, rfl⟩
    | load type address =>
      refine ⟨.load, ?_⟩
      cases address <;> rfl
    | store value address =>
      refine ⟨.store, ?_⟩
      cases address <;> rfl
    | call callee args => exact ⟨.address, rfl⟩
    | other opcode operands => exact ⟨.address, rfl⟩

theorem occurrences_accessesOf (p : Program) (attributeGlobals : Bool) (i : InstId) (owner : String)
    (field : UInt64) :
    Table.occurrences (accessesOf p attributeGlobals i) owner field =
      p.hits attributeGlobals owner field i := by
  obtain ⟨origin, hc⟩ := p.classify_eq_chainOf i
  unfold accessesOf Program.hits
  rw [hc]
  cases p.chainOf i with
  | none => rfl
  | some chain => simpa using chain.occurrences_events p attributeGlobals origin owner field

/-- The accesses to a field of a structure by the instructions that listed ones lead to. -/
def heatFrom (p : IndexedProgram) (o : Options) (owner : String) (field : UInt64) (listed : List InstId) : Nat :=
  ((reached p o listed).map (p.hits o.attributeGlobalOperands owner field)).sum

/-- The number of accesses to a field of a structure: a sum over all roots among the functions. -/
def heat (p : IndexedProgram) (o : Options) (owner : String) (field : UInt64) : Nat :=
  ((p.functions.toList.filter (Function.IsRoot o)).map fun f => heatFrom p o owner field f.listing).sum

/-- The accesses to a field of a structure that walks come across: a sum over the roots that have ids. -/
def walkedHeat (p : IndexedProgram) (o : Options) (owner : String) (field : UInt64) : Nat :=
  ((p.starts o).map fun root => heatFrom p o owner field (p.instructionsOf root)).sum

theorem occurrences_accesses (p : IndexedProgram) (o : Options) (root : FunctionId) (owner : String)
    (field : UInt64) :
    Table.occurrences ((Walker.ofOptions o).accesses p root) owner field =
      heatFrom p o owner field (p.instructionsOf root) := by
  rw [heatFrom, ← coe_classified, Multiset.map_coe, Multiset.sum_coe, Walker.accesses, Table.occurrences,
    List.countP_flatMap]
  congr 1
  apply List.map_congr_left
  intro i _
  exact occurrences_accessesOf p.toProgram o.attributeGlobalOperands i owner field

/-- The accesses of a whole analysis, counted root by root. -/
theorem occurrences_walkAccesses (p : IndexedProgram) (o : Options) (owner : String)
    (field : UInt64) :
    Table.occurrences (walkAccesses p o (rootsOf p.toProgram o)) owner field =
      walkedHeat p o owner field := by
  rw [p.rootsOf_eq_starts, walkAccesses, Table.occurrences, List.countP_flatMap, walkedHeat]
  congr 1
  apply List.map_congr_left
  intro root _
  exact occurrences_accesses p o root owner field

/-- As long as their number has 32 bits, the ids name the functions one after another. -/
theorem Program.forall₂_functionIds {p : Program} (few : p.functions.size < UInt32.size) :
    List.Forall₂ (fun id f => p.function? id = some f) p.functionIds p.functions.toList := by
  have hcount : p.functions.size.toUInt32.toNat = p.functions.size := UInt32.toNat_ofNat_of_lt' few
  rw [functionIds, hcount]
  refine List.forall₂_iff_get.mpr ⟨by simp, ?_⟩
  intro n hn hn'
  have hsize : n < p.functions.size := by simpa using hn'
  have hid : n.toUInt32.toNat = n := UInt32.toNat_ofNat_of_lt' (Nat.lt_trans hsize few)
  simp [function?, hid, hsize]

/-- The roots by their ids are the roots in the arena as long as 32 bits hold the number of functions. -/
theorem walkedHeat_eq_heat {p : IndexedProgram} (few : p.functions.size < UInt32.size) (o : Options)
    (owner : String) (field : UInt64) : walkedHeat p o owner field = heat p o owner field := by
  have hnamed := Program.forall₂_functionIds few
  unfold walkedHeat heat Program.starts
  generalize p.functionIds = ids at hnamed ⊢
  generalize p.functions.toList = fs at hnamed ⊢
  induction hnamed with
  | nil => rfl
  | @cons id f ids fs hid _ ih =>
    have hlisted : p.instructionsOf id = f.listing := by
      simp only [Program.instructionsOf, hid]
    have hroot : p.StartsAt o id ↔ f.IsRoot o := by
      simp [Program.StartsAt, hid]
    by_cases hf : f.IsRoot o
    · have hstart := hroot.mpr hf
      simp only [List.filter_cons, hstart, hf, decide_true, if_true, List.map_cons, List.sum_cons, hlisted, ih]
    · have hstart := mt hroot.mp hf
      simpa only [List.filter_cons, hstart, hf, decide_false, Bool.false_eq_true, if_false] using ih

theorem count_eq_heat {p : IndexedProgram} (few : p.functions.size < UInt32.size) (o : Options) (owner : String)
    (field : UInt64) :
    ((analyze p o).table.count owner field).toNat = min (2 ^ 64 - 1) (heat p o owner field) := by
  rw [analyze_table, Table.count_ofAccesses_toNat, occurrences_walkAccesses, walkedHeat_eq_heat few]

/-- In a program with fewer functions than 32 bits can count, the count of a field is its heat up to the largest 64 bit
number, and a field has an entry exactly if it has heat. -/
theorem analyze_count_eq_heat (p : IndexedProgram) (few : p.functions.size < UInt32.size) (o : Options)
    (owner : String) (field : UInt64) :
    ((analyze p o).table.count owner field).toNat = min (2 ^ 64 - 1) (heat p o owner field) ∧
      ((analyze p o).table.Present owner field ↔ 0 < heat p o owner field) := by
  have hcount := count_eq_heat few o owner field
  refine ⟨hcount, ?_⟩
  have hw : (analyze p o).table.WellFormed := by
    rw [analyze_table]
    exact Table.wellFormed_ofAccesses _
  rw [hw.present_iff_count_pos, hcount]
  omega

/-- Two functions with the entry symbol, of which the first calls a helper, stores by a constant address and hands over an
argument that a function beside them uses as well. The helper takes an index from a global. -/
def tallied : Program where
  types := #[.int 32, .struct (some "pair") [⟨0⟩, ⟨0⟩], .struct (some "index") [⟨0⟩, ⟨0⟩]]
  globals := #[{ name := "one", valueType := ⟨2⟩, initializer := some 1 }, { name := "state", valueType := ⟨1⟩ }]
  functions := #[{ name := "main", params := 1, blocks := [{ insts := [⟨0⟩, ⟨1⟩] }, { insts := [⟨3⟩] }] },
    { name := "helper", params := 1, blocks := [{ insts := [⟨2⟩] }] },
    { name := "beside", blocks := [{ insts := [⟨4⟩] }] }, { name := "main", blocks := [{ insts := [⟨3⟩] }] }]
  instructions := #[.gep ⟨1⟩ (.argument ⟨0⟩ 0) [.constInt 0, .constInt 1],
    .call (.direct ⟨1⟩) [.argument ⟨0⟩ 0, .constInt 7],
    .gep ⟨1⟩ (.argument ⟨1⟩ 0) [.constInt 0, .global ⟨0⟩],
    .store (.constInt 3) (.const ⟨0⟩),
    .gep ⟨1⟩ (.argument ⟨0⟩ 0) [.constInt 0, .constInt 1]]
  constants := #[⟨⟨1⟩, .global ⟨1⟩, [.constInt 0, .constInt 1]⟩]

theorem analyze_count_eq_heat_tallied :
    let p := tallied.index
    let again : Options := { deduplicate := false }
    p.functions.size < UInt32.size ∧
    heat p {} "pair" 1 = 5 ∧ ((analyze p {}).table.count "pair" 1).toNat = 5 ∧
    heat p again "pair" 1 = 6 ∧ ((analyze p again).table.count "pair" 1).toNat = 6 ∧
    heat p .baseline "pair" 1 = 4 ∧ ((analyze p .baseline).table.count "pair" 1).toNat = 4 ∧
    (analyze p {}).table.Present "index" 1 ∧ ¬(analyze p .baseline).table.Present "index" 1 := by
  intro p again
  have few : p.functions.size < UInt32.size := by decide
  have once : heat p {} "pair" 1 = 5 := by decide
  have often : heat p again "pair" 1 = 6 := by decide
  have narrow : heat p .baseline "pair" 1 = 4 := by decide
  have index := (analyze_count_eq_heat p few {} "index" 1).2
  have unattributed := (analyze_count_eq_heat p few .baseline "index" 1).2
  refine ⟨few, once, ?_, often, ?_, narrow, ?_, index.mpr (by decide), unattributed.not.mpr (by decide)⟩
  · rw [(analyze_count_eq_heat p few {} "pair" 1).1, once]
    rfl
  · rw [(analyze_count_eq_heat p few again "pair" 1).1, often]
    rfl
  · rw [(analyze_count_eq_heat p few .baseline "pair" 1).1, narrow]
    rfl

/-- An entry function that computes the address of a field, in front of a number of declarations. -/
def crowded (declarations : Nat) : Program where
  types := #[.int 32, .struct (some "pair") [⟨0⟩, ⟨0⟩]]
  functions :=
    ({ name := "main", blocks := [{ insts := [⟨0⟩] }] } :: List.replicate declarations { name := "declared" }).toArray
  instructions := #[.gep ⟨1⟩ (.constInt 0) [.constInt 0, .constInt 1]]

theorem size_crowded (declarations : Nat) : (crowded declarations).functions.size = declarations + 1 := by
  simp [crowded]

theorem heat_crowded (declarations : Nat) : heat (crowded declarations).index {} "pair" 1 = 1 := by
  have hroots : (crowded declarations).functions.toList.filter (Function.IsRoot {}) =
      [{ name := "main", blocks := [{ insts := [⟨0⟩] }] }] := by
    have hdeclared : ¬({ name := "declared" } : Function).IsRoot {} := by decide
    simp only [crowded, List.filter_cons, List.filter_replicate, hdeclared]
    rfl
  have hfirst : heatFrom (crowded declarations).index {} "pair" 1 [⟨0⟩] = 1 := rfl
  change (((crowded declarations).functions.toList.filter (Function.IsRoot {})).map _).sum = 1
  rw [hroots]
  exact hfirst

/-- The first number of functions that 32 bits cannot count is counted as none. -/
theorem analyze_table_of_uncounted {p : IndexedProgram} (size : p.functions.size = UInt32.size) (o : Options) :
    (analyze p o).table = .empty := by
  have hnone : rootsOf p.toProgram o = [] := by
    rw [rootsOf, Program.functionIds, size]
    rfl
  rw [analyze_table, hnone]
  rfl

/-- With one function more than 32 bits can count, the entry function has heat and its field has no count. -/
theorem analyze_count_ne_heat_crowded :
    let p := (crowded (2 ^ 32 - 1)).index
    p.functions.size = 2 ^ 32 ∧ heat p {} "pair" 1 = 1 ∧
      ((analyze p {}).table.count "pair" 1).toNat ≠ min (2 ^ 64 - 1) (heat p {} "pair" 1) ∧
      ¬((analyze p {}).table.Present "pair" 1 ↔ 0 < heat p {} "pair" 1) := by
  intro p
  have hsize : p.functions.size = 2 ^ 32 := size_crowded (2 ^ 32 - 1)
  have hheat : heat p {} "pair" 1 = 1 := heat_crowded (2 ^ 32 - 1)
  have hempty : (analyze p {}).table = .empty := analyze_table_of_uncounted hsize {}
  rw [hheat, hempty]
  refine ⟨hsize, rfl, by decide, fun present => ?_⟩
  obtain ⟨counts, hcounts, _⟩ := present.mpr Nat.one_pos
  cases hcounts

end HotFields
