import HotFields.Proofs.BuilderDiscipline
import HotFields.Proofs.BuilderSteps
import HotFields.Proofs.ExactUses

namespace HotFields

/-- An instruction that is listed once is once among the users of a value. -/
theorem Program.nodup_users_index {p : Program} (unique : p.listing.Nodup) (v : Value) : (p.index.users v).Nodup := by
  cases hv : v.isConstInt with
  | true =>
    rw [p.users_index_constInt hv]
    exact List.nodup_nil
  | false =>
    rw [Program.users_index_of_nodup hv unique]
    exact unique.filter _

namespace Builder

/-- If one member comes to contribute more, the whole list contributes just that much more. -/
theorem flatMap_modify_perm {α β : Type} {xs : List α} {k : Nat} {x : α} (hx : xs[k]? = some x) {change : α → α}
    {g : α → List β} {added : List β} (h : (g (change x)).Perm (g x ++ added)) :
    ((xs.modify k change).flatMap g).Perm (xs.flatMap g ++ added) := by
  induction xs generalizing k with
  | nil => simp at hx
  | cons y ys ih =>
    cases k with
    | zero =>
      obtain rfl : y = x := by simpa using hx
      rw [List.modify_zero_cons, List.flatMap_cons, List.flatMap_cons]
      have moved : (added ++ ys.flatMap g).Perm (ys.flatMap g ++ added) := List.perm_append_comm
      have hhead := (h.append_right (ys.flatMap g)).trans (List.append_assoc _ _ _ ▸ moved.append_left (g y))
      rwa [← List.append_assoc] at hhead
    | succ k =>
      rw [List.modify_succ_cons, List.flatMap_cons, List.flatMap_cons, List.append_assoc]
      exact (ih (by simpa using hx)).append_left (g y)

/-- Every instruction is listed once, and every block lists its instructions in order of their ids. -/
structure Placed (p : Program) : Prop where
  once : (p.listing.map fun i => i.index.toNat).Perm (List.range p.instructions.size)
  ascending : ∀ f ∈ p.functions.toList, ∀ k ∈ f.blocks, k.insts.Pairwise fun i j => i.index < j.index

theorem listing_changeFunction {p : Program} {id : FunctionId} {f : Function} (hf : p.function? id = some f)
    {change : Function → Function} {added : List InstId} (h : (change f).listing.Perm (f.listing ++ added)) :
    (p.changeFunction id change).listing.Perm (p.listing ++ added) := by
  have hx : p.functions.toList[id.index.toNat]? = some f := Array.getElem?_toList.trans hf
  rw [Program.listing, Program.changeFunction, Array.toList_modify]
  exact flatMap_modify_perm hx h

namespace Placed

variable {p q : Program}

theorem congr (h : Placed p) (functions : q.functions = p.functions) (instructions : q.instructions = p.instructions) :
    Placed q where
  once := by
    rw [Program.listing, functions, instructions]
    exact h.once
  ascending := functions ▸ h.ascending

theorem lt_size (h : Placed p) {f : Function} (hf : f ∈ p.functions.toList) {k : Block} (hk : k ∈ f.blocks) {i : InstId}
    (hi : i ∈ k.insts) : i.index.toNat < p.instructions.size := by
  have hlisted : i ∈ p.listing := List.mem_flatMap.mpr ⟨f, hf, List.mem_flatMap.mpr ⟨k, hk, hi⟩⟩
  have hmem := h.once.mem_iff.mp (List.mem_map_of_mem hlisted)
  exact List.mem_range.mp hmem

theorem nodup_listing (h : Placed p) : p.listing.Nodup :=
  List.Nodup.of_map _ (h.once.nodup_iff.mpr List.nodup_range)

theorem addFunction (h : Placed p) (name : String) (params : UInt32) : Placed (p.addFunction name params) where
  once := by simpa [Program.listing, Program.addFunction, Function.listing] using h.once
  ascending f hf k hk := by
    rcases Array.mem_push.mp (Array.mem_toList_iff.mp hf) with old | rfl
    · exact h.ascending f (Array.mem_toList_iff.mpr old) k hk
    · cases hk

theorem addBlock (h : Placed p) {id : FunctionId} {f : Function} (hf : p.function? id = some f)
    (label : Option String) : Placed (p.changeFunction id (Function.addBlock label)) where
  once := by
    have hlisting : (f.addBlock label).listing.Perm (f.listing ++ []) := by
      simp [Function.listing, Function.addBlock]
    have hall := listing_changeFunction hf hlisting
    rw [List.append_nil] at hall
    exact (hall.map _).trans h.once
  ascending g hg k hk := by
    simp only [Program.changeFunction, Array.toList_modify] at hg
    rcases mem_modify hg with old | ⟨g', hg', rfl⟩
    · exact h.ascending g old k hk
    · rcases List.mem_append.mp hk with old | new
      · exact h.ascending g' hg' k old
      · obtain rfl := List.mem_singleton.mp new
        exact List.Pairwise.nil

/-- The new id is larger than all that are listed, so the block that takes it stays ascending. -/
theorem addInst (h : Placed p) {id : InstId} (hid : id.index.toNat = p.instructions.size) {target : BlockRef}
    {f : Function} (hf : p.function? target.function = some f) (hindex : target.index < f.blocks.length)
    (i : Instruction) :
    Placed ({ p with instructions := p.instructions.push i }.changeFunction target.function
      (Function.addInst target.index id)) where
  once := by
    have hblock : (f.addInst target.index id).listing.Perm (f.listing ++ [id]) :=
      flatMap_modify_perm (List.getElem?_eq_getElem hindex) (List.Perm.refl _)
    have hlisting := listing_changeFunction (p := { p with instructions := p.instructions.push i }) hf hblock
    refine (hlisting.map _).trans ?_
    change ((p.listing ++ [id]).map _).Perm (List.range (p.instructions.push i).size)
    rw [Array.size_push, List.range_succ, List.map_append, List.map_singleton, hid]
    exact h.once.append_right _
  ascending g hg k hk := by
    simp only [Program.changeFunction, Array.toList_modify] at hg
    rcases mem_modify hg with old | ⟨g', hg', rfl⟩
    · exact h.ascending g old k hk
    · rcases mem_modify hk with old | ⟨k', hk', rfl⟩
      · exact h.ascending g' hg' k old
      · refine List.pairwise_append.mpr ⟨h.ascending g' hg' k' hk', List.pairwise_singleton _ _, ?_⟩
        intro j hj j' hj'
        obtain rfl := List.mem_singleton.mp hj'
        have hlt := h.lt_size hg' hk' hj
        rw [UInt32.lt_iff_toNat_lt]
        omega

end Placed

/-- Four steps change functions; every other one leaves functions and instructions as they are. -/
theorem Performs.placed {p q : Program} {s : Step} {handle : Handle} (h : Performs p s handle q) (placed : Placed p)
    (few : q.instructions.size ≤ UInt32.size) : Placed q := by
  cases h with
  | type d => exact placed.congr rfl rfl
  | structBody t fields => exact placed.congr rfl rfl
  | global g => exact placed.congr rfl rfl
  | define name params hid hf => exact (placed.addFunction name params).addBlock hf _
  | declare name params => exact placed.addFunction name params
  | block hf label => exact placed.addBlock hf label
  | argument function index => exact placed
  | constant c => exact placed.congr rfl rfl
  | instruction hid hf hindex i =>
    have hroom : p.instructions.size < UInt32.size := by
      simpa [Program.changeFunction] using few
    refine placed.addInst ?_ hf hindex i
    rw [hid]
    exact UInt32.toNat_ofNat_of_lt' hroom

theorem run_placed {b b' : Builder} {steps : List Step} {handles : List Handle}
    (h : run b steps = ⟨handles, .ok b'⟩) (placed : Placed b.program)
    (few : b'.program.instructions.size ≤ UInt32.size) : Placed b'.program := by
  induction steps generalizing b handles with
  | nil =>
    cases h
    exact placed
  | cons s rest ih =>
    obtain ⟨handle, next, given, hstep, hrun, rfl⟩ := run_cons_eq_ok h
    -- Instructions are never removed, so the bound at the end is one for every step.
    have hsize := (run_keeps hrun).instructions.length_le
    exact ih hrun ((step_performs hstep).placed placed (Nat.le_trans hsize few))

/-- The arena that a step adds an object to holds no more objects than 32 bits tell apart. -/
def Step.Addressable (q : Program) : Step → Prop
  | .type _ => q.types.size ≤ UInt32.size
  | .global _ => q.globals.size ≤ UInt32.size
  | .define .. | .declare .. => q.functions.size ≤ UInt32.size
  | .constant _ => q.constants.size ≤ UInt32.size
  | .instruction .. => q.instructions.size ≤ UInt32.size
  | .structBody .. | .block .. | .argument .. => True

instance (q : Program) : (s : Step) → Decidable (s.Addressable q)
  | .type _ | .global _ | .define .. | .declare .. | .constant _ | .instruction .. => Nat.decLe _ _
  | .structBody .. | .block .. | .argument .. => instDecidableTrue

/-- What a step on `p` has made is in `q`, where its handle says and as the steps in between leave it. -/
inductive Stands (p : Program) (later : List Step) (q : Program) : Step → Handle → Prop
  | type {d : TypeDef} {id : TypeId} (made : q.type? id = some (d.refilled (bodies id.index.toNat later))) :
    Stands p later q (.type d) (.type id)
  | structBody (t : TypeId) (fields : List TypeId) : Stands p later q (.structBody t fields) .none
  | global {g : Global} {id : GlobalId} (made : q.global? id = some g) :
    Stands p later q (.global g) (.value (.global id))
  | define {id : FunctionId} {f : Function} {k : Block} (made : q.function? id = some f)
    (entry : f.blocks.head? = some k) (label : k.label = some "entry") :
    Stands p later q (.define f.name f.params) (.definition id ⟨id, 0⟩)
  | declare {id : FunctionId} {f : Function} (made : q.function? id = some f) :
    Stands p later q (.declare f.name f.params) (.function id)
  | block {function : FunctionId} {f : Function} {k : Block} (hf : p.function? function = some f)
    (block : q.block? ⟨function, f.blocks.length⟩ = some k) :
    Stands p later q (.block function k.label) (.block ⟨function, f.blocks.length⟩)
  | argument (function : FunctionId) (index : UInt32) :
    Stands p later q (.argument function index) (.value (.argument function index))
  | constant {c : ConstGep} {id : ConstId} (made : q.constant? id = some c) :
    Stands p later q (.constant c) (.value (.const id))
  | instruction {target : BlockRef} {i : Instruction} {id : InstId} {k : Block} (made : q.instruction? id = some i)
    (block : q.block? target = some k) (listed : id ∈ k.insts) :
    Stands p later q (.instruction target i) (.inst id)

theorem Keeps.block? {p q : Program} {steps : List Step} (h : Keeps p steps q) {ref : BlockRef} {k : Block}
    (hk : p.block? ref = some k) :
    ∃ k', q.block? ref = some k' ∧ k'.label = k.label ∧ k.insts <+: k'.insts := by
  obtain ⟨f, hf, hblock⟩ := Option.bind_eq_some_iff.mp hk
  obtain ⟨f', hf', continues⟩ := h.functions _ f hf
  obtain ⟨k', hk', hlabel, hinsts⟩ := continues.blocks _ k hblock
  exact ⟨k', Option.bind_eq_some_iff.mpr ⟨f', hf', hk'⟩, hlabel, hinsts⟩

/-- An object at a position that 32 bits can count is found by the number of the position. -/
theorem getElem?_toUInt32 {α : Type} {arena : Array α} (all : arena.size ≤ UInt32.size) {position : Nat} {object : α}
    (h : arena[position]? = some object) :
    position.toUInt32.toNat = position ∧ arena[position.toUInt32.toNat]? = some object := by
  have hposition : position < arena.size := (Array.getElem?_eq_some_iff.mp h).1
  have hid : position.toUInt32.toNat = position := UInt32.toNat_ofNat_of_lt' (Nat.lt_of_lt_of_le hposition all)
  exact ⟨hid, hid.symm ▸ h⟩

/-- One case for each step: what it added is at the last place of an arena that has ids for all of its objects, and
is kept from there on. -/
theorem Performs.stands {p q r : Program} {s : Step} {handle : Handle} {later : List Step}
    (h : Performs p s handle q) (kept : Keeps q later r) (all : s.Addressable r) : Stands p later r s handle := by
  cases h with
  | type d =>
    obtain ⟨hid, made⟩ := getElem?_toUInt32 all (kept.types p.types.size d Array.getElem?_push_size)
    refine .type (made.trans ?_)
    rw [hid]
  | structBody t fields => exact .structBody t fields
  | global g =>
    exact .global (getElem?_toUInt32 all (Keeps.getElem?_of_prefix kept.globals Array.getElem?_push_size)).2
  | @define id name params f hid hf =>
    have declared := (Keeps.changeFunction _ id (Function.continues_addBlock (some "entry"))).trans kept
    obtain ⟨f', hf', continues⟩ := declared.functions p.functions.size { name, params } Array.getElem?_push_size
    obtain ⟨hposition, made⟩ := getElem?_toUInt32 all hf'
    have hname : name = f'.name := continues.name.symm
    have hparams : params = f'.params := continues.params.symm
    subst hid hname hparams
    -- The id leads to the new function, and not to an earlier one, since it has not come round.
    have hnew : (p.addFunction f'.name f'.params).function? ⟨p.functions.size.toUInt32⟩ =
        some { name := f'.name, params := f'.params } := by
      rw [Program.function?, hposition]
      exact Array.getElem?_push_size
    cases hf.symm.trans hnew
    obtain ⟨k, hk, hlabel, -⟩ := kept.block? (Program.block?_addBlock hf (some "entry"))
    obtain ⟨f'', hf'', hentry⟩ := Option.bind_eq_some_iff.mp hk
    cases made.symm.trans hf''
    exact .define made (List.head?_eq_getElem?.trans hentry) hlabel
  | declare name params =>
    obtain ⟨f', hf', continues⟩ := kept.functions p.functions.size { name, params } Array.getElem?_push_size
    have hname : name = f'.name := continues.name.symm
    have hparams : params = f'.params := continues.params.symm
    subst hname hparams
    exact .declare (getElem?_toUInt32 all hf').2
  | block hf label =>
    obtain ⟨k, hk, rfl, -⟩ := kept.block? (Program.block?_addBlock hf label)
    exact .block hf hk
  | argument function index => exact .argument function index
  | constant c =>
    have made := Keeps.getElem?_of_prefix kept.constants Array.getElem?_push_size
    exact .constant (getElem?_toUInt32 all made).2
  | @instruction id target f hid hf hindex i =>
    obtain ⟨k, hk, hlisted⟩ :=
      Program.block?_addInst (p := { p with instructions := p.instructions.push i }) hf hindex id
    obtain ⟨k', hk', -, hinsts⟩ := kept.block? hk
    have made := Keeps.getElem?_of_prefix kept.instructions Array.getElem?_push_size
    subst hid
    exact .instruction (getElem?_toUInt32 all made).2 hk' (hinsts.subset hlisted)

/-- However little the arguments of its steps make sense, a construction that is performed lists every instruction once,
and every block in order of creation. What a step has made stays as it is, the fields of structs and the blocks of functions
apart. As long as all objects of its kind have ids, the handle of the step leads to it, and an instruction is in the block
that it was created in. No value has a user twice. -/
theorem run_placement {steps : List Step} {handles : List Handle} {b : Builder}
    (performed : run {} steps = ⟨handles, .ok b⟩) (few : b.finish.instructions.size ≤ UInt32.size) :
    (b.finish.listing.map fun i => i.index.toNat).Perm (List.range b.finish.instructions.size) ∧
    (∀ f ∈ b.finish.functions.toList, ∀ k ∈ f.blocks, k.insts.Pairwise fun i j => i.index < j.index) ∧
    (∀ earlier s later, steps = earlier ++ s :: later → ∃ given before handle after rest,
      run {} earlier = ⟨given, .ok before⟩ ∧ before.step s = .ok (handle, after) ∧ handles = given ++ handle :: rest ∧
      Keeps after.program later b.finish.toProgram ∧
      (s.Addressable b.finish.toProgram → Stands before.program later b.finish.toProgram s handle)) ∧
    ∀ v, (b.finish.users v).Nodup := by
  have blank : Placed ({} : Builder).program := ⟨List.Perm.refl _, fun f hf => by cases hf⟩
  have placed : Placed b.program := run_placed performed blank few
  refine ⟨placed.once, placed.ascending, ?_, ?_⟩
  · rintro earlier s later rfl
    obtain ⟨given, before, handle, after, rest, hbefore, hstep, hrun, rfl⟩ := run_append_eq_ok performed
    have kept := run_keeps hrun
    exact ⟨given, before, handle, after, rest, hbefore, hstep, rfl, kept, (step_performs hstep).stands kept⟩
  · exact Program.nodup_users_index placed.nodup_listing

/-- Two functions in turns, with operands, types and callees that do not exist, and a struct that gets its body late. -/
def interleaved : List Step :=
  [.define "main" 0, .declare "puts" 1, .define "helper" 2, .block ⟨0⟩ (some "exit"),
    .instruction ⟨⟨2⟩, 0⟩ (.load ⟨9⟩ (.inst ⟨7⟩)), .instruction ⟨⟨0⟩, 1⟩ (.store (.inst ⟨0⟩) (.global ⟨4⟩)),
    .type (.struct (some "Node") []), .instruction ⟨⟨0⟩, 0⟩ (.other "add" [.inst ⟨0⟩, .inst ⟨0⟩]),
    .structBody ⟨0⟩ [⟨5⟩], .structBody ⟨3⟩ [], .instruction ⟨⟨2⟩, 0⟩ (.call (.direct ⟨8⟩) [.inst ⟨0⟩, .inst ⟨0⟩])]

-- the entry function lists first what was created third, and the struct is found with the body that it got later
theorem run_placement_interleaved :
    ∃ handles b, run {} interleaved = ⟨handles, .ok b⟩ ∧ b.finish.listing = [⟨2⟩, ⟨1⟩, ⟨0⟩, ⟨3⟩] ∧
      (b.finish.listing.map fun i => i.index.toNat).Perm (List.range b.finish.instructions.size) ∧
      b.finish.users (.inst ⟨0⟩) = [⟨2⟩, ⟨1⟩, ⟨3⟩] ∧ (b.finish.users (.inst ⟨0⟩)).Nodup ∧
      b.finish.type? ⟨0⟩ = some (.struct (some "Node") [⟨5⟩]) ∧
      ∃ before, Stands before (interleaved.drop 7) b.finish.toProgram (.type (.struct (some "Node") [])) (.type ⟨0⟩) := by
  obtain ⟨once, -, made, unique⟩ := run_placement (show run {} interleaved = ⟨_, .ok _⟩ from rfl) (by decide)
  obtain ⟨given, before, handle, after, rest, hbefore, hstep, -, -, stands⟩ :=
    made (interleaved.take 6) _ (interleaved.drop 7) rfl
  cases (show run {} (interleaved.take 6) = ⟨_, .ok _⟩ from rfl).symm.trans hbefore
  cases hstep
  exact ⟨_, _, rfl, by decide, once, by decide, unique (.inst ⟨0⟩), by decide, _, stands (by decide)⟩

theorem run_append {b next : Builder} {xs ys : List Step} {given : List Handle} (h : run b xs = ⟨given, .ok next⟩) :
    run b (xs ++ ys) = ⟨given ++ (run next ys).handles, (run next ys).outcome⟩ := by
  induction xs generalizing b given with
  | nil =>
    cases h
    rfl
  | cons s rest ih =>
    obtain ⟨handle, after, given, hstep, hrun, rfl⟩ := run_cons_eq_ok h
    rw [List.cons_append, run, hstep]
    simp only [ih hrun]
    rfl

/-- A type added over and over, for a count that no proof has to compute with. -/
theorem run_replicate_type (d : TypeDef) (n : Nat) (b : Builder) :
    ∃ given, run b (List.replicate n (.type d)) =
      ⟨given, .ok ⟨{ b.program with types := b.program.types ++ Array.replicate n d }⟩⟩ := by
  induction n generalizing b with
  | zero => exact ⟨[], by simp [run]⟩
  | succ n ih =>
    obtain ⟨given, hrun⟩ := ih (b.addType d).2
    have hgrown : (b.addType d).2.program.types ++ Array.replicate n d =
        b.program.types ++ Array.replicate (n + 1) d := by
      rw [addType, Array.push_eq_append, Array.append_assoc, ← Array.replicate_succ']
    have hstep : b.step (.type d) = .ok (.type (b.addType d).1, (b.addType d).2) := rfl
    refine ⟨.type (b.addType d).1 :: given, ?_⟩
    rw [List.replicate_succ, run, hstep]
    simp only [hrun, hgrown]
    rfl

theorem run_types (n : Nat) (positive : 0 < n) :
    ∃ given b, run {} (List.replicate n (.type .void) ++ [.type (.int 1)]) = ⟨given ++ [.type ⟨n.toUInt32⟩], .ok b⟩ ∧
      b.finish.instructions.size = 0 ∧ b.finish.type? ⟨0⟩ = some .void := by
  obtain ⟨given, hrun⟩ := run_replicate_type .void n {}
  refine ⟨given, ⟨{ types := (Array.replicate n .void).push (.int 1) }⟩, ?_, rfl, ?_⟩
  · rw [run_append hrun]
    simp [run, step, addType]
  · change ((Array.replicate n TypeDef.void).push (.int 1))[0]? = some .void
    rw [Array.getElem?_push_lt (by simpa using positive), Array.getElem_replicate]

/-- After as many types as 32 bits tell apart, the handle of one more leads to the first of them. -/
theorem run_placement_overflowing :
    ∃ handles b, run {} (List.replicate (2 ^ 32) (.type .void) ++ [.type (.int 1)]) = ⟨handles, .ok b⟩ ∧
      b.finish.instructions.size = 0 ∧ handles.getLast? = some (.type ⟨0⟩) ∧ b.finish.type? ⟨0⟩ ≠ some (.int 1) := by
  obtain ⟨given, b, hrun, hsize, hfirst⟩ := run_types (2 ^ 32) (by decide)
  refine ⟨_, b, hrun, hsize, List.getLast?_concat, ?_⟩
  rw [hfirst]
  decide

end Builder

end HotFields
