import HotFields.Proofs.WalkAgreement

namespace HotFields

/-- The same instructions in another order and in other blocks. -/
structure Function.Rearranged (f g : Function) : Prop where
  name : f.name = g.name
  params : f.params = g.params
  declared : f.blocks = [] ↔ g.blocks = []
  listing : f.listing.Perm g.listing

/-- Two programs that differ in the layout of their functions only. -/
structure Program.Rearranged (p q : Program) : Prop where
  types : p.types = q.types
  globals : p.globals = q.globals
  instructions : p.instructions = q.instructions
  constants : p.constants = q.constants
  functions : List.Forall₂ Function.Rearranged p.functions.toList q.functions.toList

theorem mem_ways (p : IndexedProgram) (o : Options) (listed : List InstId) (j : InstId) :
    j ∈ ways p o listed ↔ j ∈ listed ∨ ∃ i ∈ listed,
      j ∈ calleeBody p.toProgram i ∨ o.traverseArgumentUses = true ∧ j ∈ argumentUsers p i := by
  simp only [ways, calleeBody_eq, argumentUsers_eq]
  cases o.traverseArgumentUses with
  | false => simp
  | true => simp [and_or_left, exists_or]

namespace Program.Rearranged

variable {p q : Program}

theorem instruction? (h : p.Rearranged q) (i : InstId) : p.instruction? i = q.instruction? i := by
  rw [Program.instruction?, Program.instruction?, h.instructions]

theorem listing_perm (h : p.Rearranged q) : p.listing.Perm q.listing := by
  have hfunctions := h.functions
  unfold listing
  generalize p.functions.toList = fs at hfunctions ⊢
  generalize q.functions.toList = gs at hfunctions ⊢
  induction hfunctions with
  | nil => exact List.Perm.nil
  | cons hfg _ ih => exact hfg.listing.append ih

theorem instructionsOf_perm (h : p.Rearranged q) (function : FunctionId) :
    (p.instructionsOf function).Perm (q.instructionsOf function) := by
  have hrel := rel_function? h.functions function
  unfold instructionsOf
  generalize p.function? function = f at hrel ⊢
  generalize q.function? function = g at hrel ⊢
  cases hrel with
  | none => exact List.Perm.nil
  | some hfg => exact hfg.listing

theorem starts_eq (h : p.Rearranged q) (o : Options) : p.starts o = q.starts o :=
  starts_eq_of_rel h.functions (fun _ _ hfg => ⟨hfg.name, hfg.declared⟩) o

theorem mentions_eq (h : p.Rearranged q) (v : Value) : p.mentions v = q.mentions v := by
  funext i
  rw [mentions, mentions, h.instruction?]

theorem callArguments_eq (h : p.Rearranged q) (i : InstId) :
    p.callArguments i = q.callArguments i := by
  rw [callArguments, callArguments, h.instruction?]

/-- The body of a callee is laid out anew as well. -/
theorem calleeBody_perm (h : p.Rearranged q) (i : InstId) :
    (calleeBody p i).Perm (calleeBody q i) := by
  have hcallee : p.directCallee i = q.directCallee i := by
    rw [directCallee, directCallee, h.instruction?]
  unfold calleeBody
  rw [← hcallee]
  cases p.directCallee i with
  | none => exact List.Perm.nil
  | some callee => exact h.instructionsOf_perm callee

theorem hits_eq (h : p.Rearranged q) (attributeGlobals : Bool) (owner : String) (field : UInt64) :
    p.hits attributeGlobals owner field = q.hits attributeGlobals owner field := by
  funext i
  rw [← occurrences_accessesOf, ← occurrences_accessesOf,
    accessesOf_congr h.types h.globals h.constants (h.instruction? i)]

/-- Which instructions use an argument does not depend on the arrangement; how often a use list has them does. -/
theorem mem_argumentUsers_iff (h : p.Rearranged q) (i j : InstId) :
    j ∈ argumentUsers p.index i ↔ j ∈ argumentUsers q.index i := by
  have hargs : p.index.callArguments i = q.index.callArguments i := h.callArguments_eq i
  unfold argumentUsers
  rw [hargs, List.mem_flatMap, List.mem_flatMap]
  apply exists_congr
  intro v
  apply and_congr_right
  intro hv
  have hconst : v.isConstInt = false := by simpa using (List.mem_filter.mp hv).2
  rw [p.mem_users_index hconst, q.mem_users_index hconst, h.listing_perm.mem_iff, h.mentions_eq]

theorem mem_ways_iff (h : p.Rearranged q) (o : Options) (root : FunctionId) (j : InstId) :
    j ∈ ways p.index o (p.instructionsOf root) ↔ j ∈ ways q.index o (q.instructionsOf root) := by
  have hlisted : ∀ i, i ∈ p.instructionsOf root ↔ i ∈ q.instructionsOf root :=
    fun i => (h.instructionsOf_perm root).mem_iff
  have hcallee : ∀ i, j ∈ calleeBody p.index.toProgram i ↔ j ∈ calleeBody q.index.toProgram i :=
    fun i => (h.calleeBody_perm i).mem_iff
  simp only [mem_ways, hlisted, hcallee, h.mem_argumentUsers_iff]

/-- An instruction that is listed once is once in a use list, in every arrangement. -/
theorem argumentUsers_perm (h : p.Rearranged q) (unique : p.listing.Nodup) (i : InstId) :
    (argumentUsers p.index i).Perm (argumentUsers q.index i) := by
  have hargs : p.index.callArguments i = q.index.callArguments i := h.callArguments_eq i
  have unique' : q.listing.Nodup := h.listing_perm.nodup_iff.mp unique
  unfold argumentUsers
  rw [hargs]
  apply List.Perm.flatMap_left
  intro v hv
  have hconst : v.isConstInt = false := by simpa using (List.mem_filter.mp hv).2
  rw [users_index_of_nodup hconst unique, users_index_of_nodup hconst unique', h.mentions_eq]
  exact h.listing_perm.filter _

theorem ways_eq (h : p.Rearranged q) (unique : p.listing.Nodup) (o : Options) (root : FunctionId) :
    ways p.index o (p.instructionsOf root) = ways q.index o (q.instructionsOf root) := by
  have hlisted : (p.instructionsOf root : Multiset InstId) = q.instructionsOf root :=
    Multiset.coe_eq_coe.mpr (h.instructionsOf_perm root)
  have hcallee : ∀ i, (calleeBody p.index.toProgram i : Multiset InstId) =
      calleeBody q.index.toProgram i := fun i => Multiset.coe_eq_coe.mpr (h.calleeBody_perm i)
  have husers : ∀ i, (argumentUsers p.index i : Multiset InstId) = argumentUsers q.index i :=
    fun i => Multiset.coe_eq_coe.mpr (h.argumentUsers_perm unique i)
  simp only [ways, ← calleeBody_eq, ← argumentUsers_eq, hlisted, hcallee, husers]

theorem reached_eq (h : p.Rearranged q) {o : Options}
    (unique : o.deduplicate = false → p.listing.Nodup) (root : FunctionId) :
    reached p.index o (p.instructionsOf root) = reached q.index o (q.instructionsOf root) := by
  unfold reached
  cases hd : o.deduplicate with
  | true => exact Multiset.dedup_ext.mpr (h.mem_ways_iff o root)
  | false => exact h.ways_eq (unique hd) o root

end Program.Rearranged

/-- Programs that differ in the layout of their functions only have the same table, if instructions are
de-duplicated or none is listed twice. -/
theorem analyze_rearranged_table (p q : Program) (h : p.Rearranged q) (o : Options)
    (unique : o.deduplicate = false → p.listing.Nodup) :
    (analyze p.index o).table = (analyze q.index o).table := by
  rw [analyze_table, analyze_table]
  apply Table.ofAccesses_congr
  intro owner field
  rw [occurrences_walkAccesses, occurrences_walkAccesses]
  have hstarts : p.index.starts o = q.index.starts o := h.starts_eq o
  have hhits : p.index.hits o.attributeGlobalOperands owner field =
      q.index.hits o.attributeGlobalOperands owner field := h.hits_eq _ owner field
  have hreached : ∀ root, reached p.index o (p.index.instructionsOf root) =
      reached q.index o (q.index.instructionsOf root) := h.reached_eq unique
  simp only [walkedHeat, heatFrom, hstarts, hhits, hreached]

/-- An entry function that hands its argument to a helper, in given blocks. The helper uses the argument too. -/
def handingOver (main helper : List Block) : Program where
  types := #[.int 32, .struct (some "pair") [⟨0⟩, ⟨0⟩]]
  functions := #[{ name := "main", params := 1, blocks := main },
    { name := "helper", params := 1, blocks := helper }]
  instructions := #[.gep ⟨1⟩ (.argument ⟨0⟩ 0) [.constInt 0, .constInt 1],
    .call (.direct ⟨1⟩) [.argument ⟨0⟩ 0],
    .gep ⟨1⟩ (.argument ⟨0⟩ 0) [.constInt 0, .constInt 0],
    .gep ⟨1⟩ (.argument ⟨0⟩ 0) [.constInt 0, .constInt 1]]

theorem analyze_rearranged_table_handingOver :
    let p := handingOver [{ insts := [⟨0⟩, ⟨1⟩] }, { insts := [⟨2⟩] }] [{ insts := [⟨3⟩] }]
    let q := handingOver [{ insts := [⟨2⟩, ⟨1⟩, ⟨0⟩] }] [{}, { insts := [⟨3⟩] }]
    let o : Options := { deduplicate := false }
    p.Rearranged q ∧ p.listing.Nodup ∧ (analyze p.index o).table = (analyze q.index o).table :=
  have h : (handingOver [{ insts := [⟨0⟩, ⟨1⟩] }, { insts := [⟨2⟩] }] [{ insts := [⟨3⟩] }]).Rearranged
      (handingOver [{ insts := [⟨2⟩, ⟨1⟩, ⟨0⟩] }] [{}, { insts := [⟨3⟩] }]) :=
    ⟨rfl, rfl, rfl, rfl, .cons ⟨rfl, rfl, by decide, by decide⟩
      (.cons ⟨rfl, rfl, by decide, by decide⟩ .nil)⟩
  ⟨h, by decide, analyze_rearranged_table _ _ h _ fun _ => by decide⟩

end HotFields
