import HotFields.Proofs.ProgramGrowth
import Mathlib.Tactic.MkIffOfInductiveProp

namespace HotFields

namespace Builder

/-- Ids of the objects that steps refer to. -/
structure References where
  types : List TypeId := []
  functions : List FunctionId := []
  blocks : List BlockRef := []
  values : List Value := []

/-- All that is passed to a step. -/
def Step.takes : Step → References
  | .type definition => { types := definition.parts }
  | .structBody t fields => { types := t :: fields }
  | .global g => { types := [g.valueType] }
  | .define _ _ => {}
  | .declare _ _ => {}
  | .block function _ => { functions := [function] }
  | .argument function _ => { functions := [function] }
  | .constant c => { types := [c.sourceType], values := c.base :: c.indices }
  | .instruction target i =>
    { types := i.type?.toList, functions := i.callee?.toList, blocks := [target], values := i.operands }

/-- All that a step returns. The id of an instruction serves as a value. -/
def Handle.gives : Handle → References
  | .none => {}
  | .type id => { types := [id] }
  | .value v => { values := [v] }
  | .definition id entry => { functions := [id], blocks := [entry] }
  | .function id => { functions := [id] }
  | .block ref => { blocks := [ref] }
  | .inst id => { values := [.inst id] }

/-- Every reference is to an object that exists. -/
@[mk_iff]
structure References.Exist (p : Program) (r : References) : Prop where
  types : ∀ t ∈ r.types, t.index.toNat < p.types.size
  functions : ∀ f ∈ r.functions, f.index.toNat < p.functions.size
  blocks : ∀ b ∈ r.blocks, p.HasBlock b
  values : ∀ v ∈ r.values, p.Resolves v

/-- Every reference comes from a handle, integers apart. -/
@[mk_iff]
structure References.DrawnFrom (handles : List Handle) (r : References) : Prop where
  types : ∀ t ∈ r.types, ∃ h ∈ handles, t ∈ h.gives.types
  functions : ∀ f ∈ r.functions, ∃ h ∈ handles, f ∈ h.gives.functions
  blocks : ∀ b ∈ r.blocks, ∃ h ∈ handles, b ∈ h.gives.blocks
  values : ∀ v ∈ r.values, v.isConstInt = true ∨ ∃ h ∈ handles, v ∈ h.gives.values

instance (handles : List Handle) (r : References) : Decidable (r.DrawnFrom handles) :=
  decidable_of_iff _ (References.drawnFrom_iff handles r).symm

/-- References that were drawn from handles exist as long as the handles do. -/
theorem References.DrawnFrom.exist {handles : List Handle} {r : References} (drawn : r.DrawnFrom handles)
    {p : Program} (alive : ∀ h ∈ handles, h.gives.Exist p) : r.Exist p where
  types t ht := by
    obtain ⟨h, hh, ht⟩ := drawn.types t ht
    exact (alive h hh).types t ht
  functions f hf := by
    obtain ⟨h, hh, hf⟩ := drawn.functions f hf
    exact (alive h hh).functions f hf
  blocks b hb := by
    obtain ⟨h, hh, hb⟩ := drawn.blocks b hb
    exact (alive h hh).blocks b hb
  values v hv := by
    rcases drawn.values v hv with hconst | ⟨h, hh, hv⟩
    · cases v <;> simp_all [Value.isConstInt, Program.Resolves]
    · exact (alive h hh).values v hv

theorem References.Exist.mono {p q : Program} {r : References} (h : r.Exist p) (grows : p.Grows q) :
    r.Exist q where
  types t ht := Nat.lt_of_lt_of_le (h.types t ht) grows.types
  functions f hf := grows.function_lt (h.functions f hf)
  blocks b hb := grows.hasBlock (h.blocks b hb)
  values v hv := grows.resolves (h.values v hv)

/-- Every arena has an id left for one more object. -/
@[mk_iff]
structure HasIds (p : Program) : Prop where
  types : p.types.size < UInt32.size
  globals : p.globals.size < UInt32.size
  functions : p.functions.size < UInt32.size
  instructions : p.instructions.size < UInt32.size
  constants : p.constants.size < UInt32.size

instance (p : Program) : Decidable (HasIds p) :=
  decidable_of_iff _ (hasIds_iff p).symm

/-- Only parameters that the function has are asked for. -/
def Step.InRange (p : Program) : Step → Prop
  | .argument function index => ∀ f ∈ p.function? function, index < f.params
  | _ => True

instance (p : Program) : (s : Step) → Decidable (s.InRange p)
  | .argument function index => inferInstanceAs (Decidable (∀ f ∈ p.function? function, index < f.params))
  | .type _ | .structBody .. | .global _ | .define .. | .declare .. | .block .. | .constant _
  | .instruction .. => isTrue trivial

/-- A program that was extended keeps its objects and stays free of dangling references, and the handle that was
returned is good in it. -/
structure Extends (p : Program) (handle : Handle) (q : Program) : Prop where
  grows : p.Grows q
  alive : handle.gives.Exist q
  closed : q.Closed

theorem mem_modify {α : Type} {xs : List α} {k : Nat} {f : α → α} {x : α} (h : x ∈ xs.modify k f) :
    x ∈ xs ∨ ∃ y ∈ xs, x = f y := by
  obtain ⟨j, hj⟩ := List.mem_iff_getElem?.mp h
  rw [List.getElem?_modify] at hj
  obtain ⟨y, hy, hx⟩ := Option.map_eq_some_iff.mp hj
  have hmem : y ∈ xs := List.mem_of_getElem? hy
  split at hx
  · exact Or.inr ⟨y, hmem, hx.symm⟩
  · exact Or.inl (hx ▸ hmem)

variable {b : Builder}

theorem addType_extends (closed : b.program.Closed) (room : HasIds b.program) {d : TypeDef}
    (parts : ∀ t ∈ d.parts, t.index.toNat < b.program.types.size) :
    Extends b.program (.type (b.addType d).1) (b.addType d).2.program := by
  have hid : b.program.types.size.toUInt32.toNat = b.program.types.size :=
    UInt32.toNat_ofNat_of_lt' room.types
  have grows : b.program.Grows (b.addType d).2.program :=
    .of_same_functions rfl (by simp [addType]) (Nat.le_refl _) (Nat.le_refl _) (Nat.le_refl _)
  refine ⟨grows, by simp [References.exist_iff, Handle.gives, addType, hid], ?_⟩
  refine closed.of_grows grows (fun d' hd' => ?_) (fun _ => .inl) (fun _ => .inl) (fun _ => .inl)
    (fun _ => .inl)
  refine (Array.mem_push.mp (Array.mem_toList_iff.mp hd')).imp Array.mem_toList_iff.mpr fun heq t ht => ?_
  subst heq
  exact Nat.lt_of_lt_of_le (parts t ht) grows.types

/-- A body may name the struct itself or a type that was added after it. -/
theorem setStructBody_extends (closed : b.program.Closed) {t : TypeId} {fields : List TypeId}
    (exist : ∀ u ∈ fields, u.index.toNat < b.program.types.size) :
    Extends b.program .none (b.setStructBody t fields).program := by
  have hsize : (b.setStructBody t fields).program.types.size = b.program.types.size :=
    Array.size_modify
  have grows : b.program.Grows (b.setStructBody t fields).program :=
    .of_same_functions rfl (by omega) (Nat.le_refl _) (Nat.le_refl _) (Nat.le_refl _)
  refine ⟨grows, by simp [References.exist_iff, Handle.gives], ?_⟩
  refine closed.of_grows grows (fun d' hd' => ?_) (fun _ => .inl) (fun _ => .inl) (fun _ => .inl)
    (fun _ => .inl)
  simp only [setStructBody, Array.toList_modify] at hd'
  rcases mem_modify hd' with old | ⟨d, hd, rfl⟩
  · exact .inl old
  · split
    next name _ => exact .inr fun u hu => by rw [hsize]; exact exist u hu
    next => exact .inl hd

theorem addGlobal_extends (closed : b.program.Closed) (room : HasIds b.program) {g : Global}
    (exist : g.valueType.index.toNat < b.program.types.size) :
    Extends b.program (.value (b.addGlobal g).1) (b.addGlobal g).2.program := by
  have hid : b.program.globals.size.toUInt32.toNat = b.program.globals.size :=
    UInt32.toNat_ofNat_of_lt' room.globals
  have grows : b.program.Grows (b.addGlobal g).2.program :=
    .of_same_functions rfl (Nat.le_refl _) (by simp [addGlobal]) (Nat.le_refl _) (Nat.le_refl _)
  refine ⟨grows, by simp [References.exist_iff, Handle.gives, addGlobal, Program.Resolves, hid], ?_⟩
  refine closed.of_grows grows (fun _ => .inl) (fun g' hg' => ?_) (fun _ => .inl) (fun _ => .inl)
    (fun _ => .inl)
  refine (Array.mem_push.mp (Array.mem_toList_iff.mp hg')).imp Array.mem_toList_iff.mpr fun heq => ?_
  subst heq
  exact exist

theorem addConstant_extends (closed : b.program.Closed) (room : HasIds b.program) {c : ConstGep}
    (type : c.sourceType.index.toNat < b.program.types.size)
    (values : ∀ v ∈ c.base :: c.indices, b.program.Resolves v) :
    Extends b.program (.value (b.addConstant c).1) (b.addConstant c).2.program := by
  have hid : b.program.constants.size.toUInt32.toNat = b.program.constants.size :=
    UInt32.toNat_ofNat_of_lt' room.constants
  have grows : b.program.Grows (b.addConstant c).2.program :=
    .of_same_functions rfl (Nat.le_refl _) (Nat.le_refl _) (by simp [addConstant]) (Nat.le_refl _)
  refine ⟨grows, by simp [References.exist_iff, Handle.gives, addConstant, Program.Resolves, hid], ?_⟩
  refine closed.of_grows grows (fun _ => .inl) (fun _ => .inl) (fun c' hc' => ?_) (fun _ => .inl)
    (fun _ => .inl)
  refine (Array.mem_push.mp (Array.mem_toList_iff.mp hc')).imp Array.mem_toList_iff.mpr fun heq => ?_
  subst heq
  have resolve := fun v hv => grows.resolves (values v hv)
  exact ⟨type, resolve _ List.mem_cons_self, fun v hv => resolve v (List.mem_cons_of_mem _ hv)⟩

theorem declareFunction_extends (closed : b.program.Closed) (room : HasIds b.program) (name : String)
    (params : UInt32) :
    Extends b.program (.function (b.declareFunction name params).1)
      (b.declareFunction name params).2.program := by
  have hid : b.program.functions.size.toUInt32.toNat = b.program.functions.size :=
    UInt32.toNat_ofNat_of_lt' room.functions
  have grows : b.program.Grows (b.declareFunction name params).2.program :=
    .add_function b.program _
  refine ⟨grows, by simp [References.exist_iff, Handle.gives, declareFunction, hid], ?_⟩
  refine closed.of_grows grows (fun _ => .inl) (fun _ => .inl) (fun _ => .inl) (fun _ => .inl)
    (fun i hi => .inl ?_)
  simpa [Program.listing, declareFunction, Function.listing] using hi

/-- A changed function lists what it listed, and what the change adds. -/
theorem mem_listing_modify {p : Program} {k : Nat} {change : Function → Function} {added : List InstId}
    (changed : ∀ f, ∀ i ∈ (change f).listing, i ∈ f.listing ∨ i ∈ added) {i : InstId}
    (h : i ∈ { p with functions := p.functions.modify k change }.listing) :
    i ∈ p.listing ∨ i ∈ added := by
  obtain ⟨g, hg, hi⟩ := List.mem_flatMap.mp h
  rw [Array.toList_modify] at hg
  rcases mem_modify hg with old | ⟨f, hf, rfl⟩
  · exact .inl (List.mem_flatMap.mpr ⟨g, old, hi⟩)
  · exact (changed f i hi).imp_left fun old => List.mem_flatMap.mpr ⟨f, hf, old⟩

theorem mem_listing_append {f : Function} {n : Nat} {id i : InstId}
    (h : i ∈ { f with blocks := f.blocks.modify n fun k => { k with insts := k.insts ++ [id] } }.listing) :
    i ∈ f.listing ∨ i ∈ [id] := by
  obtain ⟨k, hk, hi⟩ := List.mem_flatMap.mp h
  rcases mem_modify hk with old | ⟨k', hk', rfl⟩
  · exact .inl (List.mem_flatMap.mpr ⟨k, old, hi⟩)
  · exact (List.mem_append.mp hi).imp_left fun old => List.mem_flatMap.mpr ⟨k', hk', old⟩

/-- The function is changed in its place: its id and its earlier blocks stay what they were. -/
theorem appendBlock_extends (closed : b.program.Closed) {function : FunctionId}
    (exist : function.index.toNat < b.program.functions.size) (label : Option String) :
    ∃ ref b', b.appendBlock function label = .ok (ref, b') ∧
      Extends b.program (.block ref) b'.program := by
  obtain ⟨f, hf⟩ := Program.function?_isSome_iff.mpr exist
  rw [appendBlock, hf]
  refine ⟨_, _, rfl, ?_⟩
  have grows := Program.Grows.modify_function b.program function.index.toNat
    (fun f => { f with blocks := f.blocks ++ [{ label }] }) (fun _ => rfl) (by simp)
  refine ⟨grows, ?_, ?_⟩
  · have hblock : Program.HasBlock _ ⟨function, f.blocks.length⟩ :=
      ⟨_, Program.function?_modify hf fun f => { f with blocks := f.blocks ++ [{ label }] }, by simp⟩
    simpa [References.exist_iff, Handle.gives] using hblock
  · refine closed.of_grows grows (fun _ => .inl) (fun _ => .inl) (fun _ => .inl) (fun _ => .inl)
      (fun i hi => .inl ?_)
    have kept : i ∈ b.program.listing ∨ i ∈ [] :=
      mem_listing_modify (fun f j hj => .inl (by simpa [Function.listing] using hj)) hi
    simpa using kept

/-- The only step that changes two arenas: the instruction is added before a block lists it. -/
theorem addInstruction_extends (closed : b.program.Closed) (room : HasIds b.program) {target : BlockRef}
    (exist : b.program.HasBlock target) {i : Instruction}
    (type : ∀ t ∈ i.type?, t.index.toNat < b.program.types.size)
    (callee : ∀ f ∈ i.callee?, f.index.toNat < b.program.functions.size)
    (operands : ∀ v ∈ i.operands, b.program.Resolves v) :
    ∃ id b', b.addInstruction target i = .ok (id, b') ∧ Extends b.program (.inst id) b'.program := by
  obtain ⟨f, hf, hindex⟩ := exist
  have hid : b.program.instructions.size.toUInt32.toNat = b.program.instructions.size :=
    UInt32.toNat_ofNat_of_lt' room.instructions
  rw [addInstruction, hf]
  dsimp only
  rw [if_pos hindex]
  refine ⟨_, _, rfl, ?_⟩
  have grows := Program.Grows.trans
    (Program.Grows.of_same_functions (p := b.program)
      (q := { b.program with instructions := b.program.instructions.push i }) rfl (Nat.le_refl _)
      (Nat.le_refl _) (Nat.le_refl _) (by simp))
    (Program.Grows.modify_function _ target.function.index.toNat
      (fun f => { f with
        blocks := f.blocks.modify target.index fun k =>
          { k with insts := k.insts ++ [⟨b.program.instructions.size.toUInt32⟩] } })
      (fun _ => rfl) (by simp))
  refine ⟨grows, by simp [References.exist_iff, Handle.gives, Program.Resolves, hid], ?_⟩
  refine closed.of_grows grows (fun _ => .inl) (fun _ => .inl) (fun _ => .inl) (fun j hj => ?_)
    (fun j hj => ?_)
  · refine (Array.mem_push.mp (Array.mem_toList_iff.mp hj)).imp Array.mem_toList_iff.mpr fun heq => ?_
    subst heq
    exact ⟨type, fun f hf => grows.function_lt (callee f hf),
      fun v hv => grows.resolves (operands v (Instruction.has_iff_mem_operands.mp hv))⟩
  · refine (mem_listing_modify (fun _ _ => mem_listing_append) hj).imp_right fun hnew => ?_
    rw [List.mem_singleton.mp hnew]
    simp [hid]

theorem defineFunction_extends (closed : b.program.Closed) (room : HasIds b.program) (name : String)
    (params : UInt32) :
    ∃ id entry b', b.defineFunction name params = .ok ((id, entry), b') ∧
      Extends b.program (.definition id entry) b'.program := by
  have declared := declareFunction_extends closed room name params
  have hid : (b.declareFunction name params).1.index.toNat <
      (b.declareFunction name params).2.program.functions.size :=
    declared.alive.functions _ List.mem_cons_self
  obtain ⟨entry, b', happend, appended⟩ := appendBlock_extends declared.closed hid (some "entry")
  refine ⟨(b.declareFunction name params).1, entry, b', ?_, declared.grows.trans appended.grows, ?_,
    appended.closed⟩
  · change (((b.declareFunction name params).2.appendBlock (b.declareFunction name params).1 _).bind _) = _
    rw [happend]
    rfl
  · exact ⟨by simp [Handle.gives], (declared.alive.mono appended.grows).functions, appended.alive.blocks,
      by simp [Handle.gives]⟩

/-- A step that takes only what exists is performed. -/
theorem step_extends (closed : b.program.Closed) (room : HasIds b.program) {s : Step}
    (exist : s.takes.Exist b.program) (range : s.InRange b.program) :
    ∃ handle b', b.step s = .ok (handle, b') ∧ Extends b.program handle b'.program := by
  cases s with
  | type d => exact ⟨_, _, rfl, addType_extends closed room exist.types⟩
  | structBody t fields =>
    exact ⟨_, _, rfl, setStructBody_extends closed fun u hu => exist.types u (List.mem_cons_of_mem _ hu)⟩
  | global g => exact ⟨_, _, rfl, addGlobal_extends closed room (exist.types _ List.mem_cons_self)⟩
  | define name params =>
    obtain ⟨id, entry, b', hdefine, extended⟩ := defineFunction_extends closed room name params
    exact ⟨.definition id entry, b', by rw [step, hdefine]; rfl, extended⟩
  | declare name params => exact ⟨_, _, rfl, declareFunction_extends closed room name params⟩
  | block function label =>
    obtain ⟨ref, b', happend, extended⟩ :=
      appendBlock_extends closed (exist.functions _ List.mem_cons_self) label
    exact ⟨.block ref, b', by rw [step, happend]; rfl, extended⟩
  | argument function index =>
    obtain ⟨f, hf⟩ := Program.function?_isSome_iff.mpr (exist.functions _ List.mem_cons_self)
    have resolves : b.program.Resolves (.argument function index) := ⟨f, hf, range f hf⟩
    exact ⟨_, b, rfl, .refl _, by simpa [References.exist_iff, Handle.gives] using resolves, closed⟩
  | constant c =>
    exact ⟨_, _, rfl, addConstant_extends closed room (exist.types _ List.mem_cons_self) exist.values⟩
  | instruction target i =>
    obtain ⟨id, b', hadd, extended⟩ := addInstruction_extends closed room
      (exist.blocks _ List.mem_cons_self) (fun t ht => exist.types t (Option.mem_toList.mpr ht))
      (fun f hf => exist.functions f (Option.mem_toList.mpr hf)) exist.values
    exact ⟨.inst id, b', by rw [step, hadd]; rfl, extended⟩

/-- Every step takes what the handles before it give and finds an id left in each arena. Nothing is said of steps that
follow a failure. -/
def Disciplined (handles : List Handle) (b : Builder) : List Step → Prop
  | [] => True
  | s :: rest =>
    HasIds b.program ∧ s.takes.DrawnFrom handles ∧ s.InRange b.program ∧
      match b.step s with
      | .error _ => True
      | .ok (handle, b') => Disciplined (handle :: handles) b' rest

instance (handles : List Handle) (b : Builder) (steps : List Step) : Decidable (Disciplined handles b steps) :=
  match steps with
  | [] => isTrue trivial
  | s :: rest =>
    haveI : Decidable (match b.step s with
        | .error _ => True
        | .ok (handle, b') => Disciplined (handle :: handles) b' rest) :=
      match b.step s with
      | .error _ => isTrue trivial
      | .ok (handle, b') => instDecidableDisciplined (handle :: handles) b' rest
    inferInstanceAs (Decidable (_ ∧ _ ∧ _ ∧ _))

/-- By induction on the steps, for any handles that are alive when they begin. -/
theorem run_extends {steps : List Step} {handles : List Handle} (closed : b.program.Closed)
    (alive : ∀ h ∈ handles, h.gives.Exist b.program) (disciplined : Disciplined handles b steps) :
    ∃ given b', run b steps = ⟨given, .ok b'⟩ ∧ given.length = steps.length ∧
      (∀ h ∈ given, h.gives.Exist b'.program) ∧ b.program.Grows b'.program ∧ b'.program.Closed := by
  induction steps generalizing b handles with
  | nil =>
    exact ⟨[], b, rfl, rfl, by simp, .refl _, closed⟩
  | cons s rest ih =>
    obtain ⟨room, drawn, range, next⟩ := disciplined
    obtain ⟨handle, b₁, hstep, extended⟩ := step_extends closed room (drawn.exist alive) range
    rw [hstep] at next
    have alive₁ : ∀ h ∈ handle :: handles, h.gives.Exist b₁.program := by
      intro h hh
      rcases List.mem_cons.mp hh with rfl | old
      · exact extended.alive
      · exact (alive h old).mono extended.grows
    obtain ⟨given, b', hrun, hlength, hgiven, grows, closed'⟩ := ih extended.closed alive₁ next
    refine ⟨handle :: given, b', by rw [run, hstep]; simp only [hrun], by simp [hlength], ?_,
      extended.grows.trans grows, closed'⟩
    intro h hh
    rcases List.mem_cons.mp hh with rfl | later
    · exact extended.alive.mono grows
    · exact hgiven h later

/-- A disciplined construction performs every step, all its handles are good at its end, and the finished program has
no dangling reference. -/
theorem run_disciplined {steps : List Step} (disciplined : Disciplined [] {} steps) :
    ∃ given b, run {} steps = ⟨given, .ok b⟩ ∧ given.length = steps.length ∧
      (∀ handle ∈ given, handle.gives.Exist b.program) ∧ b.finish.validate = .ok () := by
  have closed : ({} : Builder).program.Closed := by
    constructor <;> simp [Program.listing]
  obtain ⟨given, b, hrun, hlength, alive, _, closed'⟩ := run_extends closed (by simp) disciplined
  exact ⟨given, b, hrun, hlength, alive, Program.validate_eq_ok_iff_closed.mpr closed'⟩

/-- A list node that points to its own type, a global, and a function with two blocks that calls itself. -/
def recursiveNode : List Step :=
  [.type (.int 64), .type (.struct (some "Node") []), .type (.pointer (some ⟨1⟩)),
    .structBody ⟨1⟩ [⟨0⟩, ⟨2⟩], .global { name := "head", valueType := ⟨1⟩ },
    .constant { sourceType := ⟨1⟩, base := .global ⟨0⟩, indices := [.constInt 0, .constInt 1] },
    .define "visit" 1, .block ⟨0⟩ none, .argument ⟨0⟩ 0,
    .instruction ⟨⟨0⟩, 1⟩ (.gep ⟨1⟩ (.argument ⟨0⟩ 0) [.constInt 0, .constInt 1]),
    .instruction ⟨⟨0⟩, 0⟩ (.load ⟨2⟩ (.const ⟨0⟩)),
    .instruction ⟨⟨0⟩, 1⟩ (.store (.inst ⟨1⟩) (.inst ⟨0⟩)),
    .instruction ⟨⟨0⟩, 1⟩ (.call (.direct ⟨0⟩) [.inst ⟨1⟩])]

theorem run_disciplined_recursiveNode : Disciplined [] {} recursiveNode ∧
    ∃ given b, run {} recursiveNode = ⟨given, .ok b⟩ ∧ given.length = 13 ∧
      (∀ handle ∈ given, handle.gives.Exist b.program) ∧ b.finish.validate = .ok () := by
  have disciplined : Disciplined [] {} recursiveNode := by
    decide
  exact ⟨disciplined, run_disciplined disciplined⟩

end Builder

end HotFields
