import HotFields.Program.Builder
import HotFields.Proofs.LookupSafety
import HotFields.Proofs.UseLists

namespace HotFields

theorem Program.mentions_iff {p : Program} {v : Value} {i : InstId} :
    p.mentions v i = true ↔ ∃ inst, p.instruction? i = some inst ∧ inst.Has v := by
  unfold mentions
  cases p.instruction? i with
  | none => simp
  | some inst => simp [Instruction.has_iff_mem_operands]

namespace UseLists

/-- An integer constant is passed over among the operands, so its use list stays what it was. -/
theorem users_addOperands_constInt {v : Value} (hv : v.isConstInt = true) (i : InstId)
    (operands : List Value) (uses : UseLists) : (uses.addOperands i operands).users v = uses.users v := by
  unfold addOperands
  induction operands generalizing uses with
  | nil => rfl
  | cons w rest ih =>
    rw [List.foldl_cons, ih]
    split
    next => rfl
    next hw =>
      have hne : w ≠ v := by
        rintro rfl
        exact hw hv
      rw [users_add, if_neg hne]

end UseLists

theorem Program.users_index_constInt {v : Value} (hv : v.isConstInt = true) (p : Program) :
    p.index.users v = [] := by
  change p.useLists.users v = []
  unfold useLists
  refine List.foldlRecOn (motive := fun uses : UseLists => uses.users v = []) _ _ rfl ?_
  intro uses empty i _
  cases p.instruction? i with
  | none => exact empty
  | some inst => exact (UseLists.users_addOperands_constInt hv i inst.operands uses).trans empty

/-- Programs whose use lists were made from their arenas: those read from text or loaded from a file, and those that a
builder has finished. -/
inductive IndexedProgram.Prepared : IndexedProgram → Prop
  | read {format : ProgramFormat} {text : String} {p : IndexedProgram}
    (accepted : Program.ofText format text = .ok p) : p.Prepared
  | loaded {reader : FileReader} {path : String} {p : IndexedProgram}
    (accepted : Program.load reader path = .ok p) : p.Prepared
  | finished (b : Builder) : b.finish.Prepared

/-- A loaded program was read from the text of its file. -/
theorem Program.load_eq_ok {reader : FileReader} {path : String} {p : IndexedProgram}
    (h : Program.load reader path = .ok p) : ∃ format text, Program.ofText format text = .ok p := by
  unfold load at h
  split at h
  next => cases h
  next text _ =>
    split at h
    next format _ => exact ⟨format, text, h⟩
    next => cases h

theorem IndexedProgram.Prepared.eq_index {p : IndexedProgram} (prepared : p.Prepared) :
    p = p.toProgram.index := by
  cases prepared with
  | read accepted => exact (Program.ofText_eq_ok accepted).2
  | loaded accepted =>
    obtain ⟨format, text, accepted⟩ := Program.load_eq_ok accepted
    exact (Program.ofText_eq_ok accepted).2
  | finished b => rfl

/-- The users of a value are the listed instructions that have it as an operand, in listing order, with repetitions
that stand next to each other left out. Integers have no users, and constant addresses use nothing. -/
theorem IndexedProgram.Prepared.users_exact {p : IndexedProgram} (prepared : p.Prepared) (v : Value) :
    p.users v = (if v.isConstInt then [] else (p.listing.filter (p.mentions v)).destutter (· ≠ ·)) ∧
    (∀ i, i ∈ p.users v ↔ v.isConstInt = false ∧ i ∈ p.listing ∧
      ∃ inst, p.instruction? i = some inst ∧ inst.Has v) ∧
    ∀ constants, { p.toProgram with constants }.index.users v = p.users v := by
  rw [prepared.eq_index]
  generalize p.toProgram = p
  cases hv : v.isConstInt with
  | true =>
    have none := p.users_index_constInt hv
    refine ⟨none, ?_, ?_⟩
    · simp [none]
    · intro constants
      rw [none, Program.users_index_constInt hv]
  | false =>
    refine ⟨?_, ?_, ?_⟩
    · rw [Program.users_index hv, UseLists.foldl_appendUser]
      rfl
    · intro i
      rw [Program.mem_users_index hv, Program.mentions_iff]
      simp [Program.index]
    · intro constants
      rw [Program.users_index hv, Program.users_index hv]
      rfl

/-- An addition of an argument to itself, listed twice in a row and once more after a store of the argument. The constant
address that is stored to has the argument as its base. -/
def relisted : Program where
  types := #[.int 32]
  functions := #[{ name := "main", params := 1, blocks := [{ insts := [⟨0⟩, ⟨0⟩] }, { insts := [⟨1⟩, ⟨0⟩] }] }]
  instructions := #[.other "add" [.argument ⟨0⟩ 0, .argument ⟨0⟩ 0, .constInt 1],
    .store (.argument ⟨0⟩ 0) (.const ⟨0⟩)]
  constants := #[⟨⟨0⟩, .argument ⟨0⟩ 0, [.constInt 1]⟩]

theorem IndexedProgram.Prepared.users_exact_relisted :
    let p := relisted.index
    Program.ofText .json relisted.renderJson = .ok p ∧ p.users (.argument ⟨0⟩ 0) = [⟨0⟩, ⟨1⟩, ⟨0⟩] ∧
    p.users (.constInt 1) = [] ∧ ⟨1⟩ ∈ p.users (.const ⟨0⟩) ∧
    { relisted with constants := #[] }.index.users (.argument ⟨0⟩ 0) = p.users (.argument ⟨0⟩ 0) := by
  intro p
  have accepted : Program.ofText .json relisted.renderJson = .ok p := by
    change Program.ofJson relisted.renderJson = _
    rw [Program.ofJson, Program.readJson_renderJson]
    rfl
  have prepared : p.Prepared := .read accepted
  have argument := prepared.users_exact (.argument ⟨0⟩ 0)
  have stored := (prepared.users_exact (.const ⟨0⟩)).2.1 ⟨1⟩
  exact ⟨accepted, argument.1.trans (by decide), (prepared.users_exact (.constInt 1)).1,
    stored.mpr ⟨rfl, by decide, _, rfl, .storeAddress _⟩, argument.2.2 #[]⟩

end HotFields
