import HotFields.Proofs.ProgramRoundTrip
import HotFields.Proofs.StrictAnalysis
import HotFields.Proofs.ValidReferences
import HotFields.Proofs.WalkAgreement

namespace HotFields

namespace Program.Closed

variable {p : Program} {i : InstId} {v : Value} {t : TypeId}

theorem operand (closed : p.Closed) {inst : Instruction} (hi : p.instruction? i = some inst)
    (hv : v ∈ inst.operands) : p.Resolves v :=
  (closed.instructions inst (Array.mem_toList_iff.mpr (Array.mem_of_getElem? hi))).2.2 v
    (Instruction.has_iff_mem_operands.mpr hv)

theorem memoryAddress (closed : p.Closed) (h : p.memoryAddress i = some v) : p.Resolves v := by
  unfold Program.memoryAddress at h
  split at h
  next hi =>
    cases Option.some.inj h
    exact closed.operand hi (by simp [Instruction.operands])
  next hi =>
    cases Option.some.inj h
    exact closed.operand hi (by simp [Instruction.operands])
  next => cases h

theorem callArgument (closed : p.Closed) (hv : v ∈ p.callArguments i) : p.Resolves v := by
  unfold Program.callArguments at hv
  split at hv
  next callee args hi =>
    apply closed.operand hi
    cases callee <;> simp [Instruction.operands, hv]
  next => simp at hv

theorem callee (closed : p.Closed) {function : FunctionId} (h : p.directCallee i = some function) :
    function.index.toNat < p.functions.size :=
  Program.callee_lt_size (Program.validate_eq_ok_iff_closed.mpr closed) h

theorem globalType (closed : p.Closed) (h : p.globalType v = some t) :
    t.index.toNat < p.types.size := by
  unfold Program.globalType at h
  split at h
  next id =>
    obtain ⟨g, hg, rfl⟩ := Option.map_eq_some_iff.mp h
    exact closed.globals g (Array.mem_toList_iff.mpr (Array.mem_of_getElem? hg))
  next => cases h

/-- The cursor stays inside the arena of types. -/
theorem advance (closed : p.Closed) {u : TypeId} {index : UInt64} (h : p.advance t index = some u) :
    u.index.toNat < p.types.size := by
  rw [p.advance_eq_inner] at h
  unfold Program.inner at h
  cases hd : p.type? t with
  | none => rw [hd] at h; cases h
  | some d =>
    have hparts := closed.types d (Array.mem_toList_iff.mpr (Array.mem_of_getElem? hd))
    rw [hd] at h
    cases d with
    | pointer pointee => exact hparts u (Option.mem_toList.mpr h)
    | array element length => exact hparts u (List.mem_singleton.mpr (Option.some.inj h).symm)
    | vector element length => exact hparts u (List.mem_singleton.mpr (Option.some.inj h).symm)
    | struct name fields => exact hparts u (List.mem_of_getElem? h)
    | _ => cases h

theorem constantChain (closed : p.Closed) {chain : Chain} (h : p.constantChain v = some chain) :
    chain.sourceType.index.toNat < p.types.size ∧ ∀ w ∈ chain.indices, p.Resolves w := by
  unfold Program.constantChain at h
  split at h
  next id =>
    obtain ⟨c, hc, rfl⟩ := Option.map_eq_some_iff.mp h
    obtain ⟨htype, _, hindices⟩ :=
      closed.constants c (Array.mem_toList_iff.mpr (Array.mem_of_getElem? hc))
    exact ⟨htype, hindices⟩
  next => cases h

/-- Whatever way a chain is found, its type and its indices exist. -/
theorem found (closed : p.Closed) {found : Found} (h : found ∈ classify p i) :
    found.chain.sourceType.index.toNat < p.types.size ∧
      ∀ w ∈ found.chain.indices, p.Resolves w := by
  obtain ⟨origin, hc⟩ := p.classify_eq_chainOf i
  rw [hc] at h
  obtain ⟨chain, hchain, rfl⟩ := Option.map_eq_some_iff.mp (Option.mem_toList.mp h)
  unfold Program.chainOf at hchain
  split at hchain
  next sourceType base indices hi =>
    cases Option.some.inj hchain
    have htype := (closed.instructions _ (Array.mem_toList_iff.mpr (Array.mem_of_getElem? hi))).1
    exact ⟨htype sourceType rfl, fun w hw => closed.operand hi (by simp [Instruction.operands, hw])⟩
  next id _ => exact closed.constantChain (v := .const id) hchain
  next id _ => exact closed.constantChain (v := .const id) hchain
  next => cases hchain

theorem typeAt (closed : p.Closed) {chain : Chain}
    (hsource : chain.sourceType.index.toNat < p.types.size) {k : Nat}
    (h : chain.typeAt p k = some t) : t.index.toNat < p.types.size := by
  unfold Chain.typeAt at h
  split at h
  next => cases h
  next =>
    cases Option.some.inj h
    exact hsource
  next k =>
    obtain ⟨u, _, h⟩ := Option.bind_eq_some_iff.mp h
    obtain ⟨operand, _, h⟩ := Option.bind_eq_some_iff.mp h
    obtain ⟨index, _, h⟩ := Option.bind_eq_some_iff.mp h
    exact closed.advance ((p.advance_eq_inner u index).trans h)

end Program.Closed

/-- Every object that a walk of a function comes across exists. -/
structure Walker.MeetsObjects (walker : Walker) (p : IndexedProgram) (function : FunctionId) :
    Prop where
  visits : ∀ i ∈ walker.trace p function, i.index.toNat < p.instructions.size
  callees : ∀ i ∈ p.instructionsOf function, ∀ callee, p.directCallee i = some callee →
    callee.index.toNat < p.functions.size
  constants : ∀ i ∈ walker.trace p function, ∀ id, p.memoryAddress i = some (.const id) →
    id.index.toNat < p.constants.size
  arguments : ∀ i ∈ p.instructionsOf function, ∀ id, .global id ∈ p.callArguments i →
    id.index.toNat < p.globals.size
  indices : ∀ i ∈ walker.trace p function, ∀ found ∈ classify p.toProgram i,
    ∀ id, .global id ∈ found.chain.indices → id.index.toNat < p.globals.size
  cursors : ∀ i ∈ walker.trace p function, ∀ found ∈ classify p.toProgram i,
    ∀ k t, found.chain.typeAt p.toProgram k = some t → t.index.toNat < p.types.size
  globalTypes : ∀ v t, p.globalType v = some t → t.index.toNat < p.types.size

theorem Program.Closed.meetsObjects {p : Program} (closed : p.Closed) (walker : Walker)
    (function : FunctionId) : walker.MeetsObjects p.index function where
  visits i hi := closed.listing i (Program.mem_listing_of_mem_trace hi)
  callees _ _ _ hc := closed.callee hc
  constants _ _ _ ha := closed.memoryAddress ha
  arguments _ _ _ hv := closed.callArgument hv
  indices _ _ _ hfound _ hv := (closed.found hfound).2 _ hv
  cursors _ _ _ hfound _ _ ht := closed.typeAt (closed.found hfound).1 ht
  globalTypes _ _ ht := closed.globalType ht

theorem ok_bind {ε α β : Type} (a : α) (f : α → Except ε β) : (.ok a >>= f : Except ε β) = f a := rfl

theorem foldlM_eq_ok {ε α β : Type} {f : β → α → Except ε β} {g : β → α → β} {as : List α}
    (h : ∀ a ∈ as, ∀ b, f b a = .ok (g b a)) (b : β) : as.foldlM f b = .ok (as.foldl g b) := by
  induction as generalizing b with
  | nil => rfl
  | cons a rest ih =>
    rw [List.foldlM_cons, h a (by simp)]
    exact ih (fun a' ha => h a' (by simp [ha])) (g b a)

theorem filterM_eq_ok {ε α : Type} {f : α → Except ε Bool} {g : α → Bool} {as : List α}
    (h : ∀ a ∈ as, f a = .ok (g a)) : as.filterM f = .ok (as.filter g) := by
  have hrun : ∀ (as kept : List α), (∀ a ∈ as, f a = .ok (g a)) →
      as.filterAuxM f kept = .ok ((as.filter g).reverse ++ kept) := by
    intro as
    induction as with
    | nil => exact fun kept _ => rfl
    | cons a rest ih =>
      intro kept h
      have hrest := ih (cond (g a) (a :: kept) kept) fun a' ha => h a' (by simp [ha])
      rw [List.filterAuxM, h a (by simp)]
      refine hrest.trans ?_
      cases hg : g a <;> simp [hg]
  rw [List.filterM, hrun as [] h]
  simp [bind, Except.bind, pure, Except.pure]

namespace Strict

variable {p : Program}

theorem asked_eq_ok {ε α : Type} {check : Except ε Unit} (h : check = .ok ()) (answer : α) :
    (do check; return answer : Except ε α) = .ok answer := by
  rw [h]
  rfl

theorem constantIndex_eq_ok {v : Value} (hv : p.Resolves v) :
    constantIndex p v = .ok (p.constantIndex v) := by
  cases v with
  | global id => exact asked_eq_ok (Program.checkValue_eq_ok_iff.mpr hv) _
  | _ => rfl

theorem constantChain_eq_ok {v : Value} (hv : p.Resolves v) :
    constantChain p v = .ok (p.constantChain v) := by
  cases v with
  | const id => exact asked_eq_ok (Program.checkValue_eq_ok_iff.mpr hv) _
  | _ => rfl

theorem forM_checkType_eq_ok {cursor : Option TypeId}
    (h : ∀ t, cursor = some t → t.index.toNat < p.types.size) :
    cursor.toList.forM p.checkType = .ok () := by
  apply forM_eq_ok_iff.mpr
  intro t ht
  exact Program.checkType_eq_ok_iff.mpr (h t (Option.mem_toList.mp ht))

theorem globalType_eq_ok (closed : p.Closed) {v : Value} (hv : p.Resolves v) :
    globalType p v = .ok (p.globalType v) := by
  have htype := asked_eq_ok
    (forM_checkType_eq_ok fun t (ht : p.globalType v = some t) => closed.globalType ht)
    (p.globalType v)
  cases v with
  | global id =>
    have hcheck := Program.checkValue_eq_ok_iff.mpr hv
    exact check_then_eq_ok_iff.mpr ⟨hcheck, htype⟩
  | _ => exact htype

theorem structName_eq_ok {t : TypeId} (ht : t.index.toNat < p.types.size) :
    structName p t = .ok (p.structName t) :=
  asked_eq_ok (Program.checkType_eq_ok_iff.mpr ht) _

theorem advance_eq_ok (closed : p.Closed) {t : TypeId} (ht : t.index.toNat < p.types.size)
    (index : UInt64) : advance p t index = .ok (p.advance t index) := by
  have hnext := asked_eq_ok
    (forM_checkType_eq_ok fun u (hu : p.advance t index = some u) => closed.advance hu)
    (p.advance t index)
  exact check_then_eq_ok_iff.mpr ⟨Program.checkType_eq_ok_iff.mpr ht, hnext⟩

theorem globalOwner_eq_ok (closed : p.Closed) (attributeGlobals : Bool) {v : Value}
    (hv : p.Resolves v) :
    globalOwner p attributeGlobals v = .ok (Chain.globalOwner p attributeGlobals v) := by
  cases attributeGlobals with
  | false => rfl
  | true =>
    have htype := globalType_eq_ok closed hv
    simp only [globalOwner, Chain.globalOwner, htype]
    cases ht : p.globalType v with
    | none => rfl
    | some t => exact structName_eq_ok (closed.globalType ht)

/-- Classifying an instruction that exists asks only about ids that exist. -/
theorem classify_eq_ok (closed : p.Closed) {i : InstId} (hi : i.index.toNat < p.instructions.size) :
    classify p i = .ok (HotFields.classify p i) := by
  have hlisted := Program.checkListed_eq_ok_iff.mpr hi
  have hkind : instKind p i = .ok (p.instKind i) := asked_eq_ok hlisted _
  have hchain : addressChain p i = .ok (p.addressChain i) := asked_eq_ok hlisted _
  have haddress : memoryAddress p i = .ok (p.memoryAddress i) := asked_eq_ok hlisted _
  simp only [classify, HotFields.classify, hkind, hchain, haddress]
  cases ha : p.memoryAddress i with
  | none => cases p.instKind i <;> rfl
  | some address =>
    have hconst := constantChain_eq_ok (closed.memoryAddress ha)
    cases p.instKind i with
    | load | store =>
      change (constantChain p address >>= _) = _
      rw [hconst]
      rfl
    | addressComputation | call | other => rfl

section Sink

variable {σ : Type} [AccessSink σ]

theorem follow_eq_ok (closed : p.Closed) (attributeGlobals : Bool) (origin : Origin)
    (cursor : Option TypeId) (hcursor : ∀ t, cursor = some t → t.index.toNat < p.types.size)
    {operands : List Value} (hoperands : ∀ v ∈ operands, p.Resolves v) (r : Resolution σ) :
    follow p attributeGlobals origin cursor operands r =
      .ok (Chain.follow p attributeGlobals origin cursor operands r) := by
  -- the cursor stays on types that exist: each step takes it to a part of the type before
  induction operands generalizing cursor r with
  | nil => cases cursor <;> rfl
  | cons operand rest ih =>
    cases cursor with
    | none => rfl
    | some t =>
      have ht := hcursor t rfl
      have hv := hoperands operand (by simp)
      have hindex := constantIndex_eq_ok hv
      cases hi : p.constantIndex operand with
      | none =>
        rw [hi] at hindex
        simp only [follow, Chain.follow, hindex, hi]
        rfl
      | some index =>
        rw [hi] at hindex
        simp only [follow, Chain.follow, hindex, hi, structName_eq_ok ht,
          globalOwner_eq_ok closed attributeGlobals hv, advance_eq_ok closed ht]
        exact ih _ (fun u hu => closed.advance hu) (fun v hv => hoperands v (by simp [hv])) _

theorem resolve_eq_ok (closed : p.Closed) {i : InstId} {found : Found}
    (hfound : found ∈ HotFields.classify p i) (w : Walking σ) :
    resolve p.index w found = .ok (w.resolve p.index found) := by
  obtain ⟨hsource, hindices⟩ := closed.found hfound
  have hfollow := follow_eq_ok closed w.walker.attributeGlobalOperands found.origin
    (some found.chain.sourceType) (fun t ht => Option.some.inj ht ▸ hsource)
    (fun v hv => hindices v (List.mem_of_mem_tail hv)) { sink := w.sink }
  have hchain : resolveChain p w.walker.attributeGlobalOperands found.origin found.chain w.sink =
      .ok (found.chain.resolve p w.walker.attributeGlobalOperands found.origin w.sink) :=
    check_then_eq_ok_iff.mpr ⟨Program.checkType_eq_ok_iff.mpr hsource, hfollow⟩
  change (resolveChain p _ _ _ _ >>= _) = _
  rw [hchain]
  rfl

theorem visit_eq_ok (closed : p.Closed) {i : InstId} (hi : i.index.toNat < p.instructions.size)
    (w : Walking σ) : visit p.index w i = .ok (w.visit p.index i) := by
  have hlisted : p.index.checkListed i = .ok () := Program.checkListed_eq_ok_iff.mpr hi
  have hclassify : classify p.index.toProgram i = .ok (HotFields.classify p.index.toProgram i) :=
    classify_eq_ok closed hi
  have hresolve : ∀ w : Walking σ,
      (HotFields.classify p.index.toProgram i).foldlM (resolve p.index) w =
        .ok ((HotFields.classify p.index.toProgram i).foldl (Walking.resolve p.index) w) :=
    foldlM_eq_ok fun _ hfound w => resolve_eq_ok closed hfound w
  refine check_then_eq_ok_iff.mpr ⟨hlisted, ?_⟩
  unfold Walking.visit
  rw [hclassify]
  split
  next =>
    split
    next => rfl
    next => exact hresolve _
  next => exact hresolve w

theorem foldlM_visit_eq_ok (closed : p.Closed) {insts : List InstId}
    (hinsts : ∀ i ∈ insts, i ∈ p.listing) (w : Walking σ) :
    insts.foldlM (visit p.index) w = .ok (insts.foldl (Walking.visit p.index) w) :=
  foldlM_eq_ok (fun i hi w => visit_eq_ok closed (closed.listing i (hinsts i hi)) w) w

theorem instructionsOf_eq_ok {function : FunctionId}
    (h : function.index.toNat < p.functions.size) :
    instructionsOf p function = .ok (p.instructionsOf function) :=
  asked_eq_ok (Program.checkFunction_eq_ok_iff.mpr h) _

theorem functionName_eq_ok {function : FunctionId} (h : function.index.toNat < p.functions.size) :
    functionName p function = .ok (p.functionName function) :=
  asked_eq_ok (Program.checkFunction_eq_ok_iff.mpr h) _

theorem enterCallee_eq_ok (closed : p.Closed) {callee : FunctionId}
    (h : callee.index.toNat < p.functions.size) (w : Walking σ) :
    enterCallee p.index w callee = .ok (w.enterCallee p.index callee) := by
  have hname : functionName p.index.toProgram callee = .ok (p.index.functionName callee) :=
    functionName_eq_ok h
  have hbody : instructionsOf p.index.toProgram callee = .ok (p.index.instructionsOf callee) :=
    instructionsOf_eq_ok h
  unfold enterCallee
  rw [hname, hbody]
  exact foldlM_visit_eq_ok closed (fun _ hi => Program.mem_listing_of_mem_instructionsOf hi) _

theorem followArgument_eq_ok (closed : p.Closed) {v : Value} (hv : p.Resolves v) (w : Walking σ) :
    followArgument p.index w v = .ok (w.followArgument p.index v) := by
  have hinteger : isIntegerConstant p.index v = .ok (Walking.isIntegerConstant p.index v) := by
    have hindex : constantIndex p.index.toProgram v = .ok (p.index.constantIndex v) :=
      constantIndex_eq_ok hv
    have htype : globalType p.index.toProgram v = .ok (p.index.globalType v) :=
      globalType_eq_ok closed hv
    unfold isIntegerConstant
    rw [hindex, htype]
    rfl
  unfold followArgument Walking.followArgument
  rw [hinteger, Walking.isIntegerConstant_eq]
  cases hc : v.isConstInt with
  | true => rfl
  | false => exact foldlM_visit_eq_ok closed (fun _ hi => Program.mem_listing_of_mem_users hc hi) w

/-- The ids that a call leads to exist: the callee, its listed instructions, and the users of its arguments. -/
theorem walkInstruction_eq_ok (closed : p.Closed) {i : InstId} (hi : i ∈ p.listing)
    (w : Walking σ) : walkInstruction p.index w i = .ok (w.walkInstruction p.index i) := by
  have hsize := closed.listing i hi
  have hlisted := Program.checkListed_eq_ok_iff.mpr hsize
  have hvisit := visit_eq_ok closed hsize w
  have hkind : instKind p.index.toProgram i = .ok (p.index.instKind i) := asked_eq_ok hlisted _
  have hcallee : directCallee p.index.toProgram i = .ok (p.index.directCallee i) :=
    asked_eq_ok hlisted _
  have hargs : callArguments p.index.toProgram i = .ok (p.index.callArguments i) :=
    asked_eq_ok hlisted _
  -- with a known callee or without one, a call ends with its arguments
  have huses : ∀ called : Walking σ,
      (if called.walker.traverseArgumentUses then
        (callArguments p.index.toProgram i >>= fun args => args.foldlM (followArgument p.index) called)
        else .ok called) =
      .ok (if called.walker.traverseArgumentUses then
        (p.index.callArguments i).foldl (Walking.followArgument p.index) called else called) := by
    intro called
    split
    next =>
      rw [hargs]
      exact foldlM_eq_ok (fun v hv w => followArgument_eq_ok closed (closed.callArgument hv) w) called
    next => rfl
  unfold walkInstruction Walking.walkInstruction
  rw [hvisit, ok_bind, hkind, ok_bind]
  by_cases hk : p.index.instKind i = .call
  · simp only [if_pos hk]
    rw [hcallee, ok_bind]
    cases hc : p.index.directCallee i with
    | none => exact huses _
    | some callee =>
      change (enterCallee p.index _ callee >>= _) = _
      rw [enterCallee_eq_ok closed (closed.callee hc)]
      exact huses _
  · simp only [if_neg hk]
    rfl

theorem walk_eq_ok (closed : p.Closed) (walker : Walker) {function : FunctionId}
    (h : function.index.toNat < p.functions.size) (sink : σ) :
    walk walker p.index function sink = .ok (walker.walk p.index function sink) := by
  have hbody : instructionsOf p.index.toProgram function = .ok (p.index.instructionsOf function) :=
    instructionsOf_eq_ok h
  unfold walk
  rw [hbody]
  refine foldlM_eq_ok (fun i hi w => ?_) _
  exact walkInstruction_eq_ok closed (Program.mem_listing_of_mem_instructionsOf hi) w

theorem walk_of_missing (walker : Walker) {function : FunctionId}
    (h : p.functions.size ≤ function.index.toNat) (sink : σ) :
    walk walker p.index function sink = .error ⟨.function, function.index⟩ := by
  have hcheck : p.index.checkFunction function = .error ⟨.function, function.index⟩ :=
    if_neg (Nat.not_lt.mpr h)
  unfold walk instructionsOf
  rw [hcheck]
  rfl

end Sink

theorem runOnFunction_eq_ok (closed : p.Closed) (pass : Pass) {function : FunctionId}
    (h : function.index.toNat < p.functions.size) :
    runOnFunction p.index pass function = .ok (pass.runOnFunction p.index function) := by
  have hname : functionName p.index.toProgram function = .ok (p.index.functionName function) :=
    functionName_eq_ok h
  have hroot : isRoot p.index.toProgram pass.options function =
      .ok (HotFields.isRoot p.index.toProgram pass.options function) := by
    have hbody : hasBody p.index.toProgram function = .ok (p.index.hasBody function) :=
      asked_eq_ok (Program.checkFunction_eq_ok_iff.mpr h) _
    unfold isRoot
    rw [hbody, ok_bind, hname]
    rfl
  unfold runOnFunction Pass.runOnFunction
  rw [hname, ok_bind, hroot, ok_bind]
  split
  next =>
    rw [walk_eq_ok closed pass.walker h]
    rfl
  next => rfl

/-- The strict analysis and the analysis take the same steps, so that equality of steps is enough. -/
theorem analyze_eq_ok (closed : p.Closed) (o : Options) :
    analyze p.index o = .ok (HotFields.analyze p.index o) := by
  have hfunctions : p.index.functionIds.filterM (hasBody p.index.toProgram) =
      .ok (p.index.functionIds.filter p.index.hasBody) := by
    refine filterM_eq_ok fun function hf => ?_
    have hsize := Program.index_lt_of_mem_functionIds hf
    exact asked_eq_ok (Program.checkFunction_eq_ok_iff.mpr hsize) _
  have hrun : ∀ function ∈ p.index.functionIds.filter p.index.hasBody, ∀ pass : Pass,
      (do return (← runOnFunction p.index pass function).2) =
        Except.ok (pass.runOnFunction p.index function).2 := by
    intro function hf pass
    have hsize := Program.index_lt_of_mem_functionIds (List.mem_filter.mp hf).1
    rw [runOnFunction_eq_ok closed pass hsize]
    rfl
  unfold analyze
  rw [hfunctions, ok_bind, foldlM_eq_ok hrun]
  rfl

end Strict

theorem Program.ofText_eq_ok {format : ProgramFormat} {text : String} {q : IndexedProgram}
    (h : Program.ofText format text = .ok q) : q.validate = .ok () ∧ q = q.toProgram.index := by
  cases format with
  | json => exact Program.ofJson_eq_ok h
  | yaml =>
    change Program.ofYaml text = .ok q at h
    unfold Program.ofYaml at h
    split at h
    next => exact Program.checked_eq_ok h
    next => cases h

/-- A walk of a loaded program comes across existing objects only. With strict lookups it has the same outcome,
unless the walked function itself is missing, and so has the analysis of the whole program. -/
theorem loaded_lookups_succeed {format : ProgramFormat} {text : String} {p : IndexedProgram}
    (loaded : Program.ofText format text = .ok p) :
    (∀ (walker : Walker) (function : FunctionId), walker.MeetsObjects p function) ∧
    (∀ (σ : Type) [AccessSink σ] (walker : Walker) (function : FunctionId) (sink : σ),
      Strict.walk walker p function sink =
        if function.index.toNat < p.functions.size then .ok (walker.walk p function sink)
        else .error ⟨.function, function.index⟩) ∧
    ∀ o : Options, Strict.analyze p o = .ok (analyze p o) := by
  obtain ⟨valid, hindex⟩ := Program.ofText_eq_ok loaded
  have closed : p.toProgram.Closed := Program.validate_eq_ok_iff_closed.mp valid
  rw [hindex]
  refine ⟨closed.meetsObjects, ?_, Strict.analyze_eq_ok closed⟩
  intro σ _ walker function sink
  split
  next h => exact Strict.walk_eq_ok closed walker h sink
  next h => exact Strict.walk_of_missing walker (Nat.not_lt.mp h) sink

/-- A call that passes a global, and a callee that stores by a constant address with an index by that global. -/
def passesGlobal : Program where
  types := #[.int 32, .struct (some "pair") [⟨0⟩, ⟨0⟩]]
  globals := #[{ name := "one", valueType := ⟨1⟩, initializer := some 1 }]
  functions := #[{ name := "main", blocks := [{ insts := [⟨0⟩] }] },
    { name := "callee", blocks := [{ insts := [⟨1⟩] }] }]
  instructions := #[.call (.direct ⟨1⟩) [.global ⟨0⟩], .store (.constInt 7) (.const ⟨0⟩)]
  constants := #[⟨⟨1⟩, .global ⟨0⟩, [.constInt 0, .global ⟨0⟩]⟩]

/-- Without its constants the program is not loaded, and the strict analysis finds out. -/
theorem loaded_lookups_succeed_passesGlobal :
    let p := passesGlobal.index
    Program.ofText .json passesGlobal.renderJson = .ok p ∧
    (Walker.ofOptions {}).MeetsObjects p ⟨0⟩ ∧
    Strict.walk (Walker.ofOptions {}) p ⟨2⟩ ([] : List Access) = .error ⟨.function, 2⟩ ∧
    Strict.analyze p {} = .ok (analyze p {}) ∧
    ∃ missing, Strict.analyze { passesGlobal with constants := #[] }.index {} = .error missing :=
  have loaded : Program.ofText .json passesGlobal.renderJson = .ok passesGlobal.index := by
    change Program.ofJson passesGlobal.renderJson = _
    rw [Program.ofJson, Program.readJson_renderJson]
    rfl
  have safe := loaded_lookups_succeed loaded
  ⟨loaded, safe.1 (Walker.ofOptions {}) ⟨0⟩,
    safe.2.1 (List Access) (Walker.ofOptions {}) ⟨2⟩ [], safe.2.2 {}, ⟨.constant, 0⟩, rfl⟩

end HotFields
