import HotFields.Program.Builder
import HotFields.Proofs.ValidReferences

namespace HotFields

namespace Program

/-- A function of a program has a block at a position. -/
def HasBlock (p : Program) (ref : BlockRef) : Prop :=
  ∃ f, p.function? ref.function = some f ∧ ref.index < f.blocks.length

theorem function?_isSome_iff {p : Program} {id : FunctionId} :
    (∃ f, p.function? id = some f) ↔ id.index.toNat < p.functions.size := by
  constructor
  · rintro ⟨f, hf⟩
    exact (Array.getElem?_eq_some_iff.mp hf).1
  · intro h
    exact ⟨p.functions[id.index.toNat], Array.getElem?_eq_getElem h⟩

/-- Every object of a program has an object of its kind at its place in another one. Functions there have the same
parameters and no fewer blocks. -/
structure Grows (p q : Program) : Prop where
  types : p.types.size ≤ q.types.size
  globals : p.globals.size ≤ q.globals.size
  instructions : p.instructions.size ≤ q.instructions.size
  constants : p.constants.size ≤ q.constants.size
  functions : ∀ id f, p.function? id = some f → ∃ f', q.function? id = some f' ∧
    f'.params = f.params ∧ f.blocks.length ≤ f'.blocks.length

variable {p q r : Program}

theorem Grows.refl (p : Program) : p.Grows p where
  types := Nat.le_refl _
  globals := Nat.le_refl _
  instructions := Nat.le_refl _
  constants := Nat.le_refl _
  functions _ f hf := ⟨f, hf, rfl, Nat.le_refl _⟩

theorem Grows.trans (h : p.Grows q) (h' : q.Grows r) : p.Grows r where
  types := Nat.le_trans h.types h'.types
  globals := Nat.le_trans h.globals h'.globals
  instructions := Nat.le_trans h.instructions h'.instructions
  constants := Nat.le_trans h.constants h'.constants
  functions id f hf := by
    obtain ⟨g, hg, hparams, hblocks⟩ := h.functions id f hf
    obtain ⟨k, hk, hparams', hblocks'⟩ := h'.functions id g hg
    exact ⟨k, hk, by rw [hparams', hparams], by omega⟩

theorem Grows.of_same_functions (functions : q.functions = p.functions) (types : p.types.size ≤ q.types.size)
    (globals : p.globals.size ≤ q.globals.size) (constants : p.constants.size ≤ q.constants.size)
    (instructions : p.instructions.size ≤ q.instructions.size) : p.Grows q where
  types := types
  globals := globals
  instructions := instructions
  constants := constants
  functions id f hf := ⟨f, by rwa [function?, functions], rfl, Nat.le_refl _⟩

theorem Grows.add_function (p : Program) (g : Function) :
    p.Grows { p with functions := p.functions.push g } where
  types := Nat.le_refl _
  globals := Nat.le_refl _
  instructions := Nat.le_refl _
  constants := Nat.le_refl _
  functions id f hf := by
    have hlt : id.index.toNat < p.functions.size := function?_isSome_iff.mp ⟨f, hf⟩
    refine ⟨f, ?_, rfl, Nat.le_refl _⟩
    rw [function?] at hf
    rw [function?, Array.getElem?_push, if_neg (by omega), hf]

/-- A function may be changed as long as it keeps its parameters and loses no block. -/
theorem Grows.modify_function (p : Program) (k : Nat) (change : Function → Function)
    (params : ∀ f, (change f).params = f.params)
    (blocks : ∀ f, f.blocks.length ≤ (change f).blocks.length) :
    p.Grows { p with functions := p.functions.modify k change } where
  types := Nat.le_refl _
  globals := Nat.le_refl _
  instructions := Nat.le_refl _
  constants := Nat.le_refl _
  functions id f hf := by
    rw [function?] at hf
    rw [function?, Array.getElem?_modify, hf]
    split
    · exact ⟨change f, rfl, params f, blocks f⟩
    · exact ⟨f, rfl, rfl, Nat.le_refl _⟩

theorem function?_modify {id : FunctionId} {f : Function} (hf : p.function? id = some f)
    (change : Function → Function) :
    { p with functions := p.functions.modify id.index.toNat change }.function? id = some (change f) := by
  rw [function?] at hf
  rw [function?, Array.getElem?_modify, if_pos rfl, hf, Option.map_some]

theorem Grows.function_lt (h : p.Grows q) {id : FunctionId} (hid : id.index.toNat < p.functions.size) :
    id.index.toNat < q.functions.size := by
  obtain ⟨f, hf⟩ := function?_isSome_iff.mpr hid
  obtain ⟨f', hf', _⟩ := h.functions id f hf
  exact function?_isSome_iff.mp ⟨f', hf'⟩

theorem Grows.hasBlock (h : p.Grows q) {ref : BlockRef} (href : p.HasBlock ref) : q.HasBlock ref := by
  obtain ⟨f, hf, hindex⟩ := href
  obtain ⟨f', hf', _, hblocks⟩ := h.functions _ f hf
  exact ⟨f', hf', by omega⟩

/-- An operand that resolves goes on to do so, arguments included: functions keep their parameters. -/
theorem Grows.resolves (h : p.Grows q) {v : Value} (hv : p.Resolves v) : q.Resolves v := by
  cases v with
  | constInt n => trivial
  | global id => exact Nat.lt_of_lt_of_le hv h.globals
  | argument function index =>
    obtain ⟨f, hf, hindex⟩ := hv
    obtain ⟨f', hf', hparams, _⟩ := h.functions _ f hf
    exact ⟨f', hf', by rwa [hparams]⟩
  | inst id => exact Nat.lt_of_lt_of_le hv h.instructions
  | const id => exact Nat.lt_of_lt_of_le hv h.constants

/-- References of the old program resolve in the new one, so that only those of other objects have to be looked at. -/
theorem Closed.of_grows (closed : p.Closed) (grows : p.Grows q)
    (types : ∀ d ∈ q.types.toList, d ∈ p.types.toList ∨ ∀ t ∈ d.parts, t.index.toNat < q.types.size)
    (globals : ∀ g ∈ q.globals.toList, g ∈ p.globals.toList ∨ g.valueType.index.toNat < q.types.size)
    (constants : ∀ c ∈ q.constants.toList, c ∈ p.constants.toList ∨
      c.sourceType.index.toNat < q.types.size ∧ q.Resolves c.base ∧ ∀ v ∈ c.indices, q.Resolves v)
    (instructions : ∀ i ∈ q.instructions.toList, i ∈ p.instructions.toList ∨
      (∀ t ∈ i.type?, t.index.toNat < q.types.size) ∧
        (∀ f ∈ i.callee?, f.index.toNat < q.functions.size) ∧ ∀ v, i.Has v → q.Resolves v)
    (listing : ∀ i ∈ q.listing, i ∈ p.listing ∨ i.index.toNat < q.instructions.size) : q.Closed where
  types d hd := (types d hd).elim
    (fun old t ht => Nat.lt_of_lt_of_le (closed.types d old t ht) grows.types) id
  globals g hg := (globals g hg).elim
    (fun old => Nat.lt_of_lt_of_le (closed.globals g old) grows.types) id
  constants c hc := by
    refine (constants c hc).elim (fun old => ?_) id
    obtain ⟨htype, hbase, hindices⟩ := closed.constants c old
    exact ⟨Nat.lt_of_lt_of_le htype grows.types, grows.resolves hbase,
      fun v hv => grows.resolves (hindices v hv)⟩
  instructions i hi := by
    refine (instructions i hi).elim (fun old => ?_) id
    obtain ⟨htype, hcallee, hoperands⟩ := closed.instructions i old
    exact ⟨fun t ht => Nat.lt_of_lt_of_le (htype t ht) grows.types,
      fun f hf => grows.function_lt (hcallee f hf), fun v hv => grows.resolves (hoperands v hv)⟩
  listing i hi := (listing i hi).elim
    (fun old => Nat.lt_of_lt_of_le (closed.listing i old) grows.instructions) id

end Program

end HotFields
