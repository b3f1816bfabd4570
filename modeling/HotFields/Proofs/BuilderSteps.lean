import HotFields.Proofs.ProgramGrowth

namespace HotFields

/-- The type with the last of some bodies for its fields, if it is a struct. -/
def TypeDef.refilled (bodies : List (List TypeId)) : TypeDef → TypeDef
  | .struct name fields => .struct name (bodies.getLast?.getD fields)
  | other => other

theorem TypeDef.refilled_nil (d : TypeDef) : d.refilled [] = d := by
  cases d <;> rfl

theorem TypeDef.refilled_append (d : TypeDef) (xs ys : List (List TypeId)) :
    d.refilled (xs ++ ys) = (d.refilled xs).refilled ys := by
  cases d with
  | struct name fields =>
    simp only [refilled, List.getLast?_append]
    cases ys.getLast? <;> rfl
  | _ => rfl

namespace Function

def addBlock (label : Option String) (f : Function) : Function :=
  { f with blocks := f.blocks ++ [{ label }] }

def addInst (n : Nat) (id : InstId) (f : Function) : Function :=
  { f with blocks := f.blocks.modify n fun k => { k with insts := k.insts ++ [id] } }

/-- The same function later on. Only its blocks may have changed, and those only at their ends. -/
structure Continues (f f' : Function) : Prop where
  name : f'.name = f.name
  params : f'.params = f.params
  blocks : ∀ (n : Nat) (k : Block), f.blocks[n]? = some k →
    ∃ k', f'.blocks[n]? = some k' ∧ k'.label = k.label ∧ k.insts <+: k'.insts

theorem Continues.refl (f : Function) : f.Continues f where
  name := rfl
  params := rfl
  blocks _ k hk := ⟨k, hk, rfl, List.prefix_rfl⟩

theorem Continues.trans {f g h : Function} (hfg : f.Continues g) (hgh : g.Continues h) : f.Continues h where
  name := hgh.name.trans hfg.name
  params := hgh.params.trans hfg.params
  blocks n k hk := by
    obtain ⟨k', hk', hlabel, hinsts⟩ := hfg.blocks n k hk
    obtain ⟨k'', hk'', hlabel', hinsts'⟩ := hgh.blocks n k' hk'
    exact ⟨k'', hk'', hlabel'.trans hlabel, hinsts.trans hinsts'⟩

theorem continues_addBlock (label : Option String) (f : Function) : f.Continues (f.addBlock label) where
  name := rfl
  params := rfl
  blocks _ k hk := ⟨k, List.getElem?_append_left (List.getElem?_eq_some_iff.mp hk).1 ▸ hk, rfl, List.prefix_rfl⟩

theorem continues_addInst (n : Nat) (id : InstId) (f : Function) : f.Continues (f.addInst n id) where
  name := rfl
  params := rfl
  blocks m k hk := by
    by_cases hn : n = m
    · refine ⟨{ k with insts := k.insts ++ [id] }, ?_, rfl, List.prefix_append _ _⟩
      simp [addInst, hk, hn]
    · refine ⟨k, ?_, rfl, List.prefix_rfl⟩
      simp [addInst, hk, hn]

end Function

namespace Program

def addFunction (p : Program) (name : String) (params : UInt32) : Program :=
  { p with functions := p.functions.push { name, params } }

def changeFunction (p : Program) (id : FunctionId) (change : Function → Function) : Program :=
  { p with functions := p.functions.modify id.index.toNat change }

/-- The block that a reference names. -/
def block? (p : Program) (ref : BlockRef) : Option Block :=
  (p.function? ref.function).bind fun f => f.blocks[ref.index]?

theorem block?_addBlock {p : Program} {id : FunctionId} {f : Function} (hf : p.function? id = some f)
    (label : Option String) :
    (p.changeFunction id (Function.addBlock label)).block? ⟨id, f.blocks.length⟩ = some { label } := by
  have hchanged : (p.changeFunction id (Function.addBlock label)).function? id = some (f.addBlock label) :=
    function?_modify hf _
  simp [block?, hchanged, Function.addBlock]

theorem block?_addInst {p : Program} {target : BlockRef} {f : Function} (hf : p.function? target.function = some f)
    (hindex : target.index < f.blocks.length) (id : InstId) :
    ∃ k, (p.changeFunction target.function (Function.addInst target.index id)).block? target = some k ∧
      id ∈ k.insts := by
  have hchanged : (p.changeFunction target.function (Function.addInst target.index id)).function? target.function =
      some (f.addInst target.index id) := function?_modify hf _
  have hblock : f.blocks[target.index]? = some f.blocks[target.index] := List.getElem?_eq_getElem hindex
  refine ⟨{ f.blocks[target.index] with insts := f.blocks[target.index].insts ++ [id] }, ?_, by simp⟩
  simp [block?, hchanged, Function.addInst, hblock]

end Program

namespace Builder

/-- The arenas and the handle after a step that is performed. -/
inductive Performs (p : Program) : Step → Handle → Program → Prop
  | type (d : TypeDef) :
    Performs p (.type d) (.type ⟨p.types.size.toUInt32⟩) { p with types := p.types.push d }
  | structBody (t : TypeId) (fields : List TypeId) :
    Performs p (.structBody t fields) .none
      { p with types := p.types.modify t.index.toNat (TypeDef.refilled [fields]) }
  | global (g : Global) :
    Performs p (.global g) (.value (.global ⟨p.globals.size.toUInt32⟩)) { p with globals := p.globals.push g }
  | define {id : FunctionId} (name : String) (params : UInt32) {f : Function}
    (hid : id = ⟨p.functions.size.toUInt32⟩) (hf : (p.addFunction name params).function? id = some f) :
    Performs p (.define name params) (.definition id ⟨id, f.blocks.length⟩)
      ((p.addFunction name params).changeFunction id (Function.addBlock (some "entry")))
  | declare (name : String) (params : UInt32) :
    Performs p (.declare name params) (.function ⟨p.functions.size.toUInt32⟩) (p.addFunction name params)
  | block {function : FunctionId} {f : Function} (hf : p.function? function = some f) (label : Option String) :
    Performs p (.block function label) (.block ⟨function, f.blocks.length⟩)
      (p.changeFunction function (Function.addBlock label))
  | argument (function : FunctionId) (index : UInt32) :
    Performs p (.argument function index) (.value (.argument function index)) p
  | constant (c : ConstGep) :
    Performs p (.constant c) (.value (.const ⟨p.constants.size.toUInt32⟩))
      { p with constants := p.constants.push c }
  | instruction {id : InstId} {target : BlockRef} {f : Function} (hid : id = ⟨p.instructions.size.toUInt32⟩)
    (hf : p.function? target.function = some f) (hindex : target.index < f.blocks.length) (i : Instruction) :
    Performs p (.instruction target i) (.inst id)
      ({ p with instructions := p.instructions.push i }.changeFunction target.function
        (Function.addInst target.index id))

/-- What is no struct stays as it is, so that setting a body is one change of a type, whatever the type is. -/
theorem setStructBody_program (b : Builder) (t : TypeId) (fields : List TypeId) :
    (b.setStructBody t fields).program =
      { b.program with types := b.program.types.modify t.index.toNat (TypeDef.refilled [fields]) } := by
  have hbody : (fun d : TypeDef => match d with
      | .struct name _ => .struct name fields
      | other => other) = TypeDef.refilled [fields] := by
    funext d
    cases d <;> rfl
  rw [← hbody]
  rfl

theorem bind_eq_ok {α β ε : Type} {x : Except ε α} {f : α → Except ε β} {c : β} (h : (x >>= f) = .ok c) :
    ∃ a, x = .ok a ∧ f a = .ok c := by
  cases x with
  | error fault => cases h
  | ok a => exact ⟨a, rfl, h⟩

theorem appendBlock_eq_ok {b b' : Builder} {function : FunctionId} {label : Option String} {ref : BlockRef}
    (h : b.appendBlock function label = .ok (ref, b')) :
    ∃ f, b.program.function? function = some f ∧ ref = ⟨function, f.blocks.length⟩ ∧
      b'.program = b.program.changeFunction function (Function.addBlock label) := by
  unfold appendBlock at h
  split at h
  next => cases h
  next f hf =>
    cases h
    exact ⟨f, hf, rfl, rfl⟩

theorem defineFunction_eq_ok {b b' : Builder} {name : String} {params : UInt32} {id : FunctionId} {entry : BlockRef}
    (h : b.defineFunction name params = .ok ((id, entry), b')) :
    id = ⟨b.program.functions.size.toUInt32⟩ ∧
      (b.declareFunction name params).2.appendBlock id (some "entry") = .ok (entry, b') := by
  change ((b.declareFunction name params).2.appendBlock (b.declareFunction name params).1 (some "entry") >>= _) = _ at h
  obtain ⟨⟨ref, made⟩, happend, hreturn⟩ := bind_eq_ok h
  cases hreturn
  exact ⟨rfl, happend⟩

/-- An instruction is added only where its function and its block exist. -/
theorem addInstruction_eq_ok {b b' : Builder} {target : BlockRef} {i : Instruction} {id : InstId}
    (h : b.addInstruction target i = .ok (id, b')) :
    ∃ f, b.program.function? target.function = some f ∧ target.index < f.blocks.length ∧
      id = ⟨b.program.instructions.size.toUInt32⟩ ∧
      b'.program = { b.program with instructions := b.program.instructions.push i }.changeFunction target.function
        (Function.addInst target.index id) := by
  unfold addInstruction at h
  split at h
  next => cases h
  next f hf =>
    split at h
    next hindex =>
      cases h
      exact ⟨f, hf, hindex, rfl, rfl⟩
    next => cases h

/-- All that a successful step can do, said once. What is kept and where things are placed follows from it. -/
theorem step_performs {b b' : Builder} {s : Step} {handle : Handle} (h : b.step s = .ok (handle, b')) :
    Performs b.program s handle b'.program := by
  cases s with
  | type d =>
    cases h
    exact .type d
  | structBody t fields =>
    cases h
    rw [setStructBody_program]
    exact .structBody t fields
  | global g =>
    cases h
    exact .global g
  | define name params =>
    obtain ⟨⟨⟨id, entry⟩, made⟩, hdefine, hreturn⟩ := bind_eq_ok h
    cases hreturn
    obtain ⟨hid, happend⟩ := defineFunction_eq_ok hdefine
    obtain ⟨f, hf, rfl, hprogram⟩ := appendBlock_eq_ok happend
    rw [hprogram]
    exact .define name params hid hf
  | declare name params =>
    cases h
    exact .declare name params
  | block function label =>
    obtain ⟨⟨ref, made⟩, happend, hreturn⟩ := bind_eq_ok h
    cases hreturn
    obtain ⟨f, hf, rfl, hprogram⟩ := appendBlock_eq_ok happend
    rw [hprogram]
    exact .block hf label
  | argument function index =>
    cases h
    exact .argument function index
  | constant c =>
    cases h
    exact .constant c
  | instruction target i =>
    obtain ⟨⟨id, made⟩, hadd, hreturn⟩ := bind_eq_ok h
    cases hreturn
    obtain ⟨f, hf, hindex, hid, hprogram⟩ := addInstruction_eq_ok hadd
    rw [hprogram]
    exact .instruction hid hf hindex i

/-- The bodies that steps give to the type at a position. -/
def bodies (position : Nat) (steps : List Step) : List (List TypeId) :=
  steps.filterMap fun
    | .structBody t fields => if t.index.toNat = position then some fields else none
    | _ => none

/-- What there was before some steps is in its place after them, with nothing but the fields of structs and the ends of
blocks changed. -/
structure Keeps (p : Program) (steps : List Step) (q : Program) : Prop where
  types : ∀ (k : Nat) (d : TypeDef), p.types[k]? = some d → q.types[k]? = some (d.refilled (bodies k steps))
  globals : p.globals.toList <+: q.globals.toList
  functions : ∀ (k : Nat) (f : Function), p.functions[k]? = some f → ∃ f', q.functions[k]? = some f' ∧ f.Continues f'
  instructions : p.instructions.toList <+: q.instructions.toList
  constants : p.constants.toList <+: q.constants.toList

namespace Keeps

variable {p q r : Program} {steps later : List Step}

theorem refl (p : Program) : Keeps p [] p where
  types k d hd := by rw [hd]; exact congrArg some d.refilled_nil.symm
  globals := List.prefix_rfl
  functions _ f hf := ⟨f, hf, .refl f⟩
  instructions := List.prefix_rfl
  constants := List.prefix_rfl

theorem trans (h : Keeps p steps q) (h' : Keeps q later r) : Keeps p (steps ++ later) r where
  types k d hd := by
    have hlast := h'.types k _ (h.types k d hd)
    rw [← TypeDef.refilled_append] at hlast
    rw [hlast, bodies, bodies, bodies, List.filterMap_append]
  globals := h.globals.trans h'.globals
  functions k f hf := by
    obtain ⟨g, hg, hfg⟩ := h.functions k f hf
    obtain ⟨g', hg', hgg'⟩ := h'.functions k g hg
    exact ⟨g', hg', hfg.trans hgg'⟩
  instructions := h.instructions.trans h'.instructions
  constants := h.constants.trans h'.constants

theorem of_bodies (h : Keeps p steps q) (same : ∀ k, bodies k later = bodies k steps) : Keeps p later q :=
  { h with types := fun k d hd => same k ▸ h.types k d hd }

theorem getElem?_push_of_eq_some {α : Type} {xs : Array α} {k : Nat} {x : α} (h : xs[k]? = some x) (y : α) :
    (xs.push y)[k]? = some x := by
  have hk := (Array.getElem?_eq_some_iff.mp h).1
  rw [Array.getElem?_push, if_neg (by omega), h]

theorem getElem?_of_prefix {α : Type} {xs ys : Array α} (h : xs.toList <+: ys.toList) {k : Nat} {x : α}
    (hx : xs[k]? = some x) : ys[k]? = some x := by
  have hk := (Array.getElem?_eq_some_iff.mp hx).1
  obtain ⟨rest, hrest⟩ := h
  rw [← Array.getElem?_toList, ← hrest, List.getElem?_append_left hk, Array.getElem?_toList, hx]

theorem addType (p : Program) (d : TypeDef) : Keeps p [] { p with types := p.types.push d } :=
  { refl p with types := fun k d' hd => getElem?_push_of_eq_some ((refl p).types k d' hd) d }

theorem addGlobal (p : Program) (g : Global) : Keeps p [] { p with globals := p.globals.push g } :=
  { refl p with globals := by simp }

theorem addConstant (p : Program) (c : ConstGep) : Keeps p [] { p with constants := p.constants.push c } :=
  { refl p with constants := by simp }

theorem addInstruction (p : Program) (i : Instruction) :
    Keeps p [] { p with instructions := p.instructions.push i } :=
  { refl p with instructions := by simp }

theorem addFunction (p : Program) (name : String) (params : UInt32) : Keeps p [] (p.addFunction name params) :=
  { refl p with functions := fun _ f hf => ⟨f, getElem?_push_of_eq_some hf _, .refl f⟩ }

theorem changeFunction (p : Program) (id : FunctionId) {change : Function → Function}
    (continues : ∀ f : Function, f.Continues (change f)) : Keeps p [] (p.changeFunction id change) :=
  { refl p with
    functions := fun k f hf => by
      rw [Program.changeFunction, Array.getElem?_modify, hf]
      split
      next => exact ⟨change f, rfl, continues f⟩
      next => exact ⟨f, rfl, .refl f⟩ }

theorem setStructBody (p : Program) (t : TypeId) (fields : List TypeId) :
    Keeps p [.structBody t fields]
      { p with types := p.types.modify t.index.toNat (TypeDef.refilled [fields]) } :=
  { refl p with
    types := fun k d hd => by
      rw [Array.getElem?_modify, hd]
      by_cases hk : t.index.toNat = k
      · simp [hk, bodies]
      · simp [hk, bodies, TypeDef.refilled_nil] }

end Keeps

/-- A step keeps everything but the fields of the struct that it completes. -/
theorem Performs.keeps {p q : Program} {s : Step} {handle : Handle} (h : Performs p s handle q) : Keeps p [s] q := by
  have quiet : ∀ {r}, Keeps p [] r → (∀ k, bodies k [s] = []) → Keeps p [s] r := fun hr hs => hr.of_bodies hs
  cases h with
  | type d => exact quiet (.addType p d) fun _ => rfl
  | structBody t fields => exact .setStructBody p t fields
  | global g => exact quiet (.addGlobal p g) fun _ => rfl
  | define name params hid hf =>
    refine quiet ?_ fun _ => rfl
    exact (Keeps.addFunction p name params).trans (.changeFunction _ _ (Function.continues_addBlock _))
  | declare name params => exact quiet (.addFunction p name params) fun _ => rfl
  | block hf label => exact quiet (.changeFunction p _ (Function.continues_addBlock label)) fun _ => rfl
  | argument function index => exact quiet (.refl p) fun _ => rfl
  | constant c => exact quiet (.addConstant p c) fun _ => rfl
  | instruction hid hf hindex i =>
    refine quiet ?_ fun _ => rfl
    exact (Keeps.addInstruction p i).trans (.changeFunction _ _ (Function.continues_addInst _ _))

theorem run_cons_eq_ok {b b' : Builder} {s : Step} {rest : List Step} {handles : List Handle}
    (h : run b (s :: rest) = ⟨handles, .ok b'⟩) :
    ∃ handle next given, b.step s = .ok (handle, next) ∧ run next rest = ⟨given, .ok b'⟩ ∧
      handles = handle :: given := by
  unfold run at h
  cases hstep : b.step s with
  | error fault =>
    rw [hstep] at h
    cases h
  | ok made =>
    obtain ⟨handle, next⟩ := made
    rw [hstep] at h
    injection h with hhandles houtcome
    refine ⟨handle, next, (run next rest).handles, rfl, ?_, hhandles.symm⟩
    rw [← houtcome]

/-- A construction can be taken apart at each of its steps. -/
theorem run_append_eq_ok {b b' : Builder} {earlier later : List Step} {s : Step} {handles : List Handle}
    (h : run b (earlier ++ s :: later) = ⟨handles, .ok b'⟩) :
    ∃ given before handle after rest, run b earlier = ⟨given, .ok before⟩ ∧
      before.step s = .ok (handle, after) ∧ run after later = ⟨rest, .ok b'⟩ ∧ handles = given ++ handle :: rest := by
  induction earlier generalizing b handles with
  | nil =>
    obtain ⟨handle, after, rest, hstep, hrun, rfl⟩ := run_cons_eq_ok h
    exact ⟨[], b, handle, after, rest, rfl, hstep, hrun, rfl⟩
  | cons first earlier ih =>
    obtain ⟨handle₀, next, rest₀, hstep₀, hrun₀, rfl⟩ := run_cons_eq_ok h
    obtain ⟨given, before, handle, after, rest, hbefore, hstep, hrun, rfl⟩ := ih hrun₀
    refine ⟨handle₀ :: given, before, handle, after, rest, ?_, hstep, hrun, rfl⟩
    rw [run, hstep₀]
    simp only [hbefore]

/-- By induction on the steps, with `Keeps.trans` to join them. -/
theorem run_keeps {b b' : Builder} {steps : List Step} {handles : List Handle}
    (h : run b steps = ⟨handles, .ok b'⟩) : Keeps b.program steps b'.program := by
  induction steps generalizing b handles with
  | nil =>
    cases h
    exact .refl _
  | cons s rest ih =>
    obtain ⟨handle, next, given, hstep, hrun, rfl⟩ := run_cons_eq_ok h
    exact (step_performs hstep).keeps.trans (ih hrun)

end Builder

end HotFields
