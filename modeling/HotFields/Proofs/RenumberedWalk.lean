import HotFields.Proofs.Renumbering
import HotFields.Proofs.WalkAgreement

namespace HotFields

namespace Renumbering

variable {p q : Program} (ρ : Renumbering p q)

theorem type? {t u : TypeId} (h : ρ.places.SameType t u) :
    ∃ d e, p.type? t = some d ∧ q.type? u = some e ∧ ρ.places.SameTypeDef d e :=
  Moves.getElem? ρ.sameTypes h

theorem instruction? {i j : InstId} (h : ρ.places.SameInst i j) :
    ∃ x y, p.instruction? i = some x ∧ q.instruction? j = some y ∧ ρ.places.SameInstruction x y :=
  Moves.getElem? ρ.sameInstructions h

theorem constantIndex_eq {v w : Value} (h : ρ.places.SameValue v w) :
    p.constantIndex v = q.constantIndex w := by
  cases h with
  | @global g h hgh =>
    obtain ⟨x, y, hx, hy, hxy⟩ := Moves.getElem? ρ.sameGlobals hgh
    simp only [Program.constantIndex, Program.global?, hx, hy, Option.bind_some, hxy.initializer]
  | _ => rfl

theorem rel_globalType {v w : Value} (h : ρ.places.SameValue v w) :
    Option.Rel ρ.places.SameType (p.globalType v) (q.globalType w) := by
  cases h with
  | @global g h hgh =>
    obtain ⟨x, y, hx, hy, hxy⟩ := Moves.getElem? ρ.sameGlobals hgh
    simp only [Program.globalType, Program.global?, hx, hy, Option.map_some]
    exact Option.Rel.some hxy.valueType
  | _ => exact Option.Rel.none

theorem structName_eq {t u : TypeId} (h : ρ.places.SameType t u) : p.structName t = q.structName u := by
  obtain ⟨d, e, hd, he, hde⟩ := ρ.type? h
  unfold Program.structName
  rw [hd, he]
  cases hde with
  | struct name _ => cases name <;> rfl
  | _ => rfl

theorem rel_advance {t u : TypeId} (h : ρ.places.SameType t u) (index : UInt64) :
    Option.Rel ρ.places.SameType (p.advance t index) (q.advance u index) := by
  obtain ⟨d, e, hd, he, hde⟩ := ρ.type? h
  rw [p.advance_eq_inner, q.advance_eq_inner]
  unfold Program.inner
  rw [hd, he]
  cases hde with
  | pointer htu => exact htu
  | array _ htu => exact Option.Rel.some htu
  | vector _ htu => exact Option.Rel.some htu
  | struct _ hfields => exact rel_getElem? hfields index.toNat
  | _ => exact Option.Rel.none

theorem globalOwner_eq {v w : Value} (h : ρ.places.SameValue v w) (attributeGlobals : Bool) :
    Chain.globalOwner p attributeGlobals v = Chain.globalOwner q attributeGlobals w := by
  have hrel := ρ.rel_globalType h
  unfold Chain.globalOwner
  generalize p.globalType v = t at hrel ⊢
  generalize q.globalType w = u at hrel ⊢
  cases hrel with
  | none => rfl
  | some htu => simp only [Option.bind_some, ρ.structName_eq htu]

/-- By induction on the operands: corresponding cursors have the same name and move to corresponding cursors. -/
theorem accessesFrom_eq (attributeGlobals : Bool) (origin : Origin) {cursor cursor' : Option TypeId}
    {vs ws : List Value} (hc : Option.Rel ρ.places.SameType cursor cursor')
    (hvs : List.Forall₂ ρ.places.SameValue vs ws) :
    Chain.accessesFrom p attributeGlobals origin cursor vs =
      Chain.accessesFrom q attributeGlobals origin cursor' ws := by
  induction hvs generalizing cursor cursor' with
  | nil => cases hc <;> rfl
  | @cons v w vs ws hvw _ ih =>
    cases hc with
    | none => rfl
    | @some t u htu =>
      simp only [Chain.accessesFrom, Chain.stepAccesses, ρ.constantIndex_eq hvw, ρ.structName_eq htu,
        ρ.globalOwner_eq hvw]
      cases q.constantIndex w with
      | none => rfl
      | some index => simp only [ih (ρ.rel_advance htu index)]

theorem events_eq (attributeGlobals : Bool) (origin : Origin) {t u : TypeId} {vs ws : List Value}
    (htu : ρ.places.SameType t u) (hvs : List.Forall₂ ρ.places.SameValue vs ws) :
    Chain.events p attributeGlobals origin ⟨t, vs⟩ = Chain.events q attributeGlobals origin ⟨u, ws⟩ := by
  rw [Chain.events_eq_accessesFrom, Chain.events_eq_accessesFrom]
  apply ρ.accessesFrom_eq attributeGlobals origin (Option.Rel.some htu)
  cases hvs with
  | nil => exact List.Forall₂.nil
  | cons _ hrest => exact hrest

/-- Corresponding instructions have chains of the same kind, or none. -/
theorem accessesOf_eq (attributeGlobals : Bool) {i j : InstId} (h : ρ.places.SameInst i j) :
    accessesOf p attributeGlobals i = accessesOf q attributeGlobals j := by
  obtain ⟨x, y, hx, hy, hxy⟩ := ρ.instruction? h
  -- a constant address stands in the constant arena, whose entries correspond too
  have hconst : ∀ {origin : Origin} {v w : Value}, ρ.places.SameValue v w →
      (((p.constantChain v).map (Found.mk origin)).toList.flatMap fun found =>
        found.chain.events p attributeGlobals found.origin) =
      (((q.constantChain w).map (Found.mk origin)).toList.flatMap fun found =>
        found.chain.events q attributeGlobals found.origin) := by
    intro origin v w hvw
    cases hvw with
    | @const c d hcd =>
      obtain ⟨x, y, hx, hy, hxy⟩ := Moves.getElem? ρ.sameConstants hcd
      simp only [Program.constantChain, Program.constant?, hx, hy, Option.map_some,
        Option.toList_some, List.flatMap_singleton]
      exact ρ.events_eq attributeGlobals origin hxy.sourceType hxy.indices
    | _ => rfl
  unfold accessesOf classify Program.instKind Program.addressChain Program.memoryAddress
  rw [hx, hy]
  cases hxy with
  | gep htu _ hvs =>
    simp only [Option.map_some, Option.toList_some, List.flatMap_singleton]
    exact ρ.events_eq attributeGlobals .address htu hvs
  | load _ hvw => exact hconst hvw
  | store _ hvw => exact hconst hvw
  | call _ _ => rfl
  | other _ _ => rfl

theorem biUnique_sameInst : Relator.BiUnique ρ.places.SameInst :=
  Moves.biUnique ρ.instructions InstId.index fun ⟨_⟩ ⟨_⟩ h => congrArg InstId.mk h

/-- Use lists compare operands for equality, so that the correspondence has to be one to one. -/
theorem biUnique_sameValue : Relator.BiUnique ρ.places.SameValue := by
  obtain ⟨globalLeft, globalRight⟩ := Moves.biUnique ρ.globals GlobalId.index
    fun ⟨_⟩ ⟨_⟩ h => congrArg GlobalId.mk h
  obtain ⟨constLeft, constRight⟩ := Moves.biUnique ρ.constants ConstId.index
    fun ⟨_⟩ ⟨_⟩ h => congrArg ConstId.mk h
  obtain ⟨instLeft, instRight⟩ := ρ.biUnique_sameInst
  constructor
  · intro v w x hv hw
    cases hv with
    | constInt n => cases hw; rfl
    | global hv => cases hw with | global hw => exact congrArg Value.global (globalLeft hv hw)
    | argument f k => cases hw; rfl
    | inst hv => cases hw with | inst hw => exact congrArg Value.inst (instLeft hv hw)
    | const hv => cases hw with | const hw => exact congrArg Value.const (constLeft hv hw)
  · intro v w x hw hx
    cases hw with
    | constInt n => cases hx; rfl
    | global hw => cases hx with | global hx => exact congrArg Value.global (globalRight hw hx)
    | argument f k => cases hx; rfl
    | inst hw => cases hx with | inst hx => exact congrArg Value.inst (instRight hw hx)
    | const hw => cases hx with | const hx => exact congrArg Value.const (constRight hw hx)

theorem rel_operands {x y : Instruction} (h : ρ.places.SameInstruction x y) :
    List.Forall₂ ρ.places.SameValue x.operands y.operands := by
  cases h with
  | gep _ hbase hindices => exact List.Forall₂.cons hbase hindices
  | load _ haddress => exact List.Forall₂.cons haddress List.Forall₂.nil
  | store hvalue haddress =>
    exact List.Forall₂.cons hvalue (List.Forall₂.cons haddress List.Forall₂.nil)
  | call hcallee hargs =>
    cases hcallee with
    | direct f => exact hargs
    | indirect htarget => exact List.rel_append hargs (List.Forall₂.cons htarget List.Forall₂.nil)
  | other _ hoperands => exact hoperands

theorem mentions_iff {v w : Value} {i j : InstId} (hvw : ρ.places.SameValue v w)
    (hij : ρ.places.SameInst i j) : p.mentions v i = true ↔ q.mentions w j = true := by
  obtain ⟨x, y, hx, hy, hxy⟩ := ρ.instruction? hij
  have hmem : v ∈ x.operands ↔ w ∈ y.operands :=
    List.rel_mem ρ.biUnique_sameValue hvw (ρ.rel_operands hxy)
  simpa [Program.mentions, hx, hy] using hmem

theorem rel_listing {f g : Function} (h : ρ.places.SameFunction f g) :
    List.Forall₂ ρ.places.SameInst f.listing g.listing :=
  List.rel_flatMap h.blocks fun _ _ hbc => hbc.insts

/-- Whether a user is the last one already is decided alike on both sides. -/
theorem rel_appendUser {users users' : List InstId} {i j : InstId}
    (husers : List.Forall₂ ρ.places.SameInst users users') (hij : ρ.places.SameInst i j) :
    List.Forall₂ ρ.places.SameInst (UseLists.appendUser users i) (UseLists.appendUser users' j) := by
  have hlast : users.getLast? = some i ↔ users'.getLast? = some j := by
    have hrel := rel_getElem? husers (users.length - 1)
    rw [List.getLast?_eq_getElem?, List.getLast?_eq_getElem?, ← husers.length_eq]
    generalize users[users.length - 1]? = x at hrel ⊢
    generalize users'[users.length - 1]? = y at hrel ⊢
    cases hrel with
    | none => simp
    | some hxy => simpa using Relator.rel_eq ρ.biUnique_sameInst hxy hij
  unfold UseLists.appendUser
  split
  next hi => rw [if_pos (hlast.mp hi)]; exact husers
  next hi =>
    rw [if_neg (fun hj => hi (hlast.mpr hj))]
    exact List.rel_append husers (List.Forall₂.cons hij List.Forall₂.nil)

theorem isConstInt_eq {v w : Value} (h : ρ.places.SameValue v w) : v.isConstInt = w.isConstInt := by
  cases h <;> rfl

theorem rel_users {v w : Value} (hvw : ρ.places.SameValue v w) (hv : v.isConstInt = false) :
    List.Forall₂ ρ.places.SameInst (p.index.users v) (q.index.users w) := by
  have hw : w.isConstInt = false := (ρ.isConstInt_eq hvw).symm.trans hv
  have hlisting : List.Forall₂ ρ.places.SameInst p.listing q.listing :=
    List.rel_flatMap ρ.sameFunctions fun _ _ hfg => ρ.rel_listing hfg
  have hfilter := List.rel_filter (fun _ _ hij => ρ.mentions_iff hvw hij) hlisting
  rw [p.users_index hv, q.users_index hw]
  exact List.rel_foldl (P := List.Forall₂ ρ.places.SameInst) (R := ρ.places.SameInst)
    (fun _ _ husers _ _ hij => ρ.rel_appendUser husers hij) List.Forall₂.nil hfilter

theorem rel_instructionsOf (function : FunctionId) :
    List.Forall₂ ρ.places.SameInst (p.instructionsOf function) (q.instructionsOf function) := by
  have hrel := Program.rel_function? ρ.sameFunctions function
  unfold Program.instructionsOf
  generalize p.function? function = f at hrel ⊢
  generalize q.function? function = g at hrel ⊢
  cases hrel with
  | none => exact List.Forall₂.nil
  | some hfg => exact ρ.rel_listing hfg

theorem rel_calleeBody {i j : InstId} (h : ρ.places.SameInst i j) :
    List.Forall₂ ρ.places.SameInst (calleeBody p i) (calleeBody q j) := by
  obtain ⟨x, y, hx, hy, hxy⟩ := ρ.instruction? h
  have hcallee : p.directCallee i = q.directCallee j := by
    unfold Program.directCallee
    rw [hx, hy]
    cases hxy with
    | call hcd _ => cases hcd <;> rfl
    | _ => rfl
  unfold calleeBody
  rw [hcallee]
  cases q.directCallee j with
  | none => exact List.Forall₂.nil
  | some callee => exact ρ.rel_instructionsOf callee

theorem rel_callArguments {i j : InstId} (h : ρ.places.SameInst i j) :
    List.Forall₂ ρ.places.SameValue (p.callArguments i) (q.callArguments j) := by
  obtain ⟨x, y, hx, hy, hxy⟩ := ρ.instruction? h
  unfold Program.callArguments
  rw [hx, hy]
  cases hxy with
  | call _ hargs => exact hargs
  | _ => exact List.Forall₂.nil

theorem rel_argumentUsers {i j : InstId} (h : ρ.places.SameInst i j) :
    List.Forall₂ ρ.places.SameInst (argumentUsers p.index i) (argumentUsers q.index j) := by
  have hargs := ρ.rel_callArguments h
  change List.Forall₂ ρ.places.SameInst
    (((p.callArguments i).filter fun v => !v.isConstInt).flatMap p.index.users)
    (((q.callArguments j).filter fun v => !v.isConstInt).flatMap q.index.users)
  generalize p.callArguments i = args at hargs ⊢
  generalize q.callArguments j = args' at hargs ⊢
  induction hargs with
  | nil => exact List.Forall₂.nil
  | @cons v w vs ws hvw _ ih =>
    rw [List.filter_cons, List.filter_cons, ← ρ.isConstInt_eq hvw]
    cases hv : v.isConstInt with
    | true => exact ih
    | false => exact List.rel_append (ρ.rel_users hvw hv) ih

theorem rel_trace (walker : Walker) (function : FunctionId) :
    List.Forall₂ ρ.places.SameInst (walker.trace p.index function) (walker.trace q.index function) := by
  refine List.rel_flatMap (ρ.rel_instructionsOf function) fun i j hij => ?_
  refine List.Forall₂.cons hij (List.rel_append (ρ.rel_calleeBody hij) ?_)
  cases walker.traverseArgumentUses with
  | false => exact List.Forall₂.nil
  | true => exact ρ.rel_argumentUsers hij

/-- A correspondence that is one to one keeps first occurrences. -/
theorem rel_eraseDups {insts insts' : List InstId}
    (h : List.Forall₂ ρ.places.SameInst insts insts') :
    List.Forall₂ ρ.places.SameInst insts.eraseDups insts'.eraseDups := by
  induction hn : insts.length using Nat.strong_induction_on generalizing insts insts' with
  | _ n ih =>
    cases h with
    | nil => exact List.Forall₂.nil
    | @cons i j rest rest' hij hrest =>
      have hfilter : List.Forall₂ ρ.places.SameInst (rest.filter fun k => !k == i)
          (rest'.filter fun k => !k == j) := by
        refine List.rel_filter (fun k l hkl => ?_) hrest
        simpa using not_congr (Relator.rel_eq ρ.biUnique_sameInst hkl hij)
      have hshort : (rest.filter fun k => !k == i).length < n := by
        have := List.length_filter_le (fun k => !k == i) rest
        simp only [List.length_cons] at hn
        omega
      rw [List.eraseDups_cons, List.eraseDups_cons]
      exact List.Forall₂.cons hij (ih _ hshort hfilter rfl)

theorem flatMap_accessesOf_eq (attributeGlobals : Bool) {insts insts' : List InstId}
    (h : List.Forall₂ ρ.places.SameInst insts insts') :
    insts.flatMap (accessesOf p attributeGlobals) = insts'.flatMap (accessesOf q attributeGlobals) := by
  induction h with
  | nil => rfl
  | cons hij _ ih => rw [List.flatMap_cons, List.flatMap_cons, ρ.accessesOf_eq attributeGlobals hij, ih]

theorem accesses_eq (ρ : Renumbering p q) (walker : Walker) (function : FunctionId) :
    walker.accesses p.index function = walker.accesses q.index function := by
  have htrace := ρ.rel_trace walker function
  have hclassified : List.Forall₂ ρ.places.SameInst (walker.classified p.index function)
      (walker.classified q.index function) := by
    unfold Walker.classified
    split
    next => exact ρ.rel_eraseDups htrace
    next => exact htrace
  exact ρ.flatMap_accessesOf_eq walker.attributeGlobalOperands hclassified

theorem starts_eq (ρ : Renumbering p q) (o : Options) : p.starts o = q.starts o := by
  refine Program.starts_eq_of_rel ρ.sameFunctions (fun f g hfg => ⟨hfg.name, ?_⟩) o
  rw [← List.length_eq_zero_iff, ← List.length_eq_zero_iff, hfg.blocks.length_eq]

theorem walk_eq (ρ : Renumbering p q) (walker : Walker) (function : FunctionId) :
    (walker.walk p.index function ([] : List Access)).sink =
      (walker.walk q.index function ([] : List Access)).sink := by
  rw [Walker.walk_sink, Walker.walk_sink, ρ.accesses_eq]

theorem table_eq (ρ : Renumbering p q) (o : Options) :
    (analyze p.index o).table = (analyze q.index o).table := by
  have hroots : rootsOf p.index.toProgram o = rootsOf q.index.toProgram o := by
    rw [Program.rootsOf_eq_starts, Program.rootsOf_eq_starts]
    exact ρ.starts_eq o
  have haccesses : (Walker.ofOptions o).accesses p.index = (Walker.ofOptions o).accesses q.index :=
    funext (ρ.accesses_eq (Walker.ofOptions o))
  rw [analyze_table, analyze_table, hroots, walkAccesses, haccesses]
  rfl

end Renumbering

/-- A program with permuted arenas is walked to the same accesses in the same order, whatever the function and the
switches, and so it has the same tables and the same reports. -/
theorem walk_shuffle {p : Program} (valid : p.validate = .ok ()) (σ : Shuffle p) (ids : σ.KeepsIds) :
    (∀ (walker : Walker) (function : FunctionId),
      (walker.walk p.index function ([] : List Access)).sink =
        (walker.walk (p.shuffle σ).index function ([] : List Access)).sink) ∧
    ∀ o : Options, (analyze p.index o).table = (analyze (p.shuffle σ).index o).table ∧
      Report.render (analyze p.index o).table =
        Report.render (analyze (p.shuffle σ).index o).table := by
  have ρ : Renumbering p (p.shuffle σ) := σ.renumbering ids valid
  refine ⟨ρ.walk_eq, fun o => ⟨ρ.table_eq o, ?_⟩⟩
  rw [ρ.table_eq o]

/-- Types that refer to each other, a constant address, an index by a global, and an argument with several users. -/
def crossReferences : Program where
  types := #[.int 32, .struct (some "inner") [⟨0⟩, ⟨0⟩], .struct (some "outer") [⟨0⟩, ⟨1⟩, ⟨3⟩],
    .pointer (some ⟨2⟩)]
  globals := #[{ name := "table", valueType := ⟨2⟩ },
    { name := "one", valueType := ⟨1⟩, initializer := some 1 }]
  functions := #[{ name := "main", params := 1, blocks := [{ insts := [⟨0⟩, ⟨1⟩] }, { insts := [⟨2⟩, ⟨0⟩] }] },
    { name := "callee", params := 1, blocks := [{ insts := [⟨3⟩] }] }]
  instructions := #[.gep ⟨2⟩ (.argument ⟨0⟩ 0) [.constInt 0, .global ⟨1⟩, .constInt 1],
    .call (.direct ⟨1⟩) [.argument ⟨0⟩ 0, .inst ⟨0⟩],
    .store (.inst ⟨1⟩) (.const ⟨0⟩),
    .load ⟨0⟩ (.inst ⟨0⟩)]
  constants := #[⟨⟨2⟩, .global ⟨0⟩, [.constInt 0, .constInt 2, .constInt 5, .constInt 0]⟩,
    ⟨⟨1⟩, .global ⟨1⟩, [.constInt 0]⟩]

/-- Every arena in reverse. -/
def crossReferencesReversed : Shuffle crossReferences :=
  ⟨Fin.revPerm, Fin.revPerm, Fin.revPerm, Fin.revPerm⟩

theorem walk_shuffle_crossReferences :
    let p := crossReferences
    let q := p.shuffle crossReferencesReversed
    p.validate = .ok () ∧ crossReferencesReversed.KeepsIds ∧
    (∀ (walker : Walker) (function : FunctionId),
      (walker.walk p.index function ([] : List Access)).sink =
        (walker.walk q.index function ([] : List Access)).sink) ∧
    ∀ o : Options, (analyze p.index o).table = (analyze q.index o).table ∧
      Report.render (analyze p.index o).table = Report.render (analyze q.index o).table :=
  have ids : crossReferencesReversed.KeepsIds := crossReferencesReversed.keepsIds_of_addressable (by decide)
  ⟨rfl, ids, walk_shuffle rfl crossReferencesReversed ids⟩

end HotFields
