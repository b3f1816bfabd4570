import HotFields.Program.Load
import HotFields.Program.Query
import HotFields.Proofs.JsonRecords

namespace HotFields

open Json.Reader

namespace Datum

variable {α β : Type}

theorem map_read {read : Read α} {d : Datum} {a : α} (h : read d = .ok a) (f : α → β) :
    (read d).map f = .ok (f a) := by
  rw [h]
  rfl

/-- Decoded fields are made into a variant. -/
theorem asRecord_map {shape otherwise : String} {fields : List (ReadField α)} {ds : List Datum}
    {entries : List (String × Datum)} {draft a : α} (make : α → β) (distinct : (fields.map Field.name).Nodup)
    (h : Field.FilledBy (fun read d a => read d = .ok a) fields ds draft a)
    (printed : Field.entries fields ds = entries) :
    (asRecord shape otherwise fields draft (.fields entries)).map make = .ok (make a) :=
  map_read (asRecord_entries _ _ distinct h printed) make

theorem asList_map {read : Read α} {print : α → Datum} (h : ∀ a, read (print a) = .ok a) (as : List α) :
    (Datum.list (as.map print)).asList read = .ok as := by
  rw [asList]
  induction as with
  | nil => rfl
  | cons a as ih =>
    rw [List.map_cons, List.mapM_cons, h, ih]
    rfl

theorem asOption_ofOption {read : Read α} {print : α → Datum} (h : ∀ a, read (print a) = .ok a)
    (hnull : ∀ a, print a ≠ .null) (o : Option α) : (ofOption print o).asOption read = .ok o := by
  cases o with
  | none => rfl
  | some a =>
    rw [ofOption, asOption, h]
    · rfl
    · exact hnull a

theorem asText_text (s : String) : (Datum.text s).asText = .ok s :=
  rfl

theorem asTypeId_toDatum (t : TypeId) : t.toDatum.asTypeId = .ok t :=
  map_read (asUInt32_ofUInt32 t.index) _

theorem asFunctionId_ofUInt32 (f : FunctionId) : (ofUInt32 f.index).asFunctionId = .ok f :=
  map_read (asUInt32_ofUInt32 f.index) _

theorem asArgument_fields (function : FunctionId) (index : UInt32) :
    asArgument (.fields [("function", .ofUInt32 function.index), ("index", .ofUInt32 index)]) =
      .ok (function, index) :=
  asRecord_entries _ _ (by decide) (.cons (map_read (asFunctionId_ofUInt32 function) _)
    (.cons (map_read (asUInt32_ofUInt32 index) _) (.nil _))) rfl

theorem asValue_toDatum (v : Value) : v.toDatum.asValue = .ok v := by
  cases v with
  | constInt n => exact map_read (asUInt64_ofUInt64 n) _
  | global id => exact map_read (asUInt32_ofUInt32 id.index) _
  | argument function index => exact map_read (asArgument_fields function index) _
  | inst id => exact map_read (asUInt32_ofUInt32 id.index) _
  | const id => exact map_read (asUInt32_ofUInt32 id.index) _

theorem asList_listToDatum (values : List Value) : (Value.listToDatum values).asList asValue = .ok values :=
  asList_map asValue_toDatum values

theorem asCallee_toDatum (c : Callee) : c.toDatum.asCallee = .ok c := by
  cases c with
  | direct function => exact map_read (asFunctionId_ofUInt32 function) _
  | indirect target => exact map_read (asValue_toDatum target) _

end Datum

namespace Datum.Plain

theorem ofUInt32 (depth : Nat) (n : UInt32) : (Datum.ofUInt32 n).Plain depth :=
  .natural depth (Nat.lt_trans n.toNat_lt (by decide))

theorem ofUInt64 (depth : Nat) (n : UInt64) : (Datum.ofUInt64 n).Plain depth :=
  .natural depth n.toNat_lt

theorem typeId (depth : Nat) (t : TypeId) : t.toDatum.Plain depth :=
  ofUInt32 depth t.index

theorem ofOption {α : Type} {depth : Nat} {print : α → Datum} (h : ∀ a, (print a).Plain depth)
    (o : Option α) : (Datum.ofOption print o).Plain depth := by
  cases o with
  | none => exact .null depth
  | some a => exact h a

theorem list_map {α : Type} {depth : Nat} {print : α → Datum} (h : ∀ a, (print a).Plain depth)
    (as : List α) : (Datum.list (as.map print)).Plain (depth + 1) := by
  refine .list ?_
  intro d hd
  obtain ⟨a, _, rfl⟩ := List.mem_map.mp hd
  exact h a

theorem value (depth : Nat) (v : Value) : v.toDatum.Plain (depth + 2) := by
  cases v with
  | argument function index =>
    have hinner : (Datum.fields [("function", .ofUInt32 function.index), ("index", .ofUInt32 index)]).Plain
        (depth + 1) := .fields (by simp [ofUInt32])
    exact .fields (by simpa using hinner)
  | _ => exact .fields (by simp [ofUInt32, ofUInt64])

theorem callee (depth : Nat) (c : Callee) : c.toDatum.Plain (depth + 3) := by
  cases c with
  | direct function => exact .fields (by simp [ofUInt32])
  | indirect target => exact .fields (by simp [value])

end Datum.Plain

namespace Json.Reader

theorem reads_ofMismatch {α β : Type} (read : β → Except Mismatch α) {reader : Reader β} {d : Datum} {b : β}
    {a : α} (h : Reads reader d b) (hread : read b = .ok a) :
    Reads (reader >>= fun b => ofMismatch (read b)) d a where
  opens := h.opens
  read rest hr := by
    rw [bind_of_ok (h.read rest hr), hread]
    rfl

theorem reads_typeDef_fields {name : String} {entries : List (String × Datum)} {t : TypeDef}
    (hname : TypeDef.variants.contains name = true) (hkeys : ∀ e ∈ entries, e.1 ≠ "kind")
    (hplain : ∀ e ∈ entries, e.2.Plain innerDepth) (hread : TypeDef.ofTagged name (.fields entries) = .ok t) :
    Reads typeDef (.fields (("kind", .text name) :: entries)) t :=
  reads_ofMismatch (fun content : String × Datum => TypeDef.ofTagged content.1 content.2)
    (reads_tagged _ hname hkeys hplain) hread

/-- A type is read as a whole and decoded then, so each variant is a record of plain data. -/
theorem reads_typeDef (t : TypeDef) : Reads typeDef t.toDatum t := by
  have hid : ∀ t : TypeId, t.toDatum.Plain innerDepth := Datum.Plain.typeId _
  cases t with
  | void => exact reads_typeDef_fields rfl (by simp) (by simp) rfl
  | int bits =>
    refine reads_typeDef_fields rfl (by simp) (by simp [Datum.Plain.ofUInt32]) ?_
    simp only [TypeDef.ofTagged, Datum.asTypeFields, String.reduceEq, ↓reduceIte]
    exact Datum.asRecord_map (a := bits) _ (by decide) (.cons (asUInt32_ofUInt32 bits) (.nil _)) rfl
  | float bits =>
    refine reads_typeDef_fields rfl (by simp) (by simp [Datum.Plain.ofUInt32]) ?_
    simp only [TypeDef.ofTagged, Datum.asTypeFields, String.reduceEq, ↓reduceIte]
    exact Datum.asRecord_map (a := bits) _ (by decide) (.cons (asUInt32_ofUInt32 bits) (.nil _)) rfl
  | pointer pointee =>
    have hread := Datum.asOption_ofOption Datum.asTypeId_toDatum (fun _ => nofun) pointee
    refine reads_typeDef_fields rfl (by simp) (by simp [Datum.Plain.ofOption hid]) ?_
    simp only [TypeDef.ofTagged, Datum.asTypeFields, String.reduceEq, ↓reduceIte]
    exact Datum.asRecord_map (a := pointee) _ (by decide) (.cons hread (.nil _)) rfl
  | array element length =>
    refine reads_typeDef_fields rfl (by simp) (by simp [hid, Datum.Plain.ofUInt64]) ?_
    simp only [TypeDef.ofTagged, Datum.asTypeFields, String.reduceEq, ↓reduceIte]
    exact Datum.asRecord_map (a := (element, length)) _ (by decide)
      (.cons (Datum.map_read (Datum.asTypeId_toDatum element) _)
        (.cons (Datum.map_read (asUInt64_ofUInt64 length) _) (.nil _))) rfl
  | vector element length =>
    refine reads_typeDef_fields rfl (by simp) (by simp [hid, Datum.Plain.ofUInt32]) ?_
    simp only [TypeDef.ofTagged, Datum.asTypeFields, String.reduceEq, ↓reduceIte]
    exact Datum.asRecord_map (a := (element, length)) _ (by decide)
      (.cons (Datum.map_read (Datum.asTypeId_toDatum element) _)
        (.cons (Datum.map_read (asUInt32_ofUInt32 length) _) (.nil _))) rfl
  | struct name fields =>
    have hname := Datum.asOption_ofOption Datum.asText_text (fun _ => nofun) name
    have hfields := Datum.asList_map Datum.asTypeId_toDatum fields
    have hplain : (Datum.list (fields.map TypeId.toDatum)).Plain innerDepth :=
      Datum.Plain.list_map (Datum.Plain.typeId _) fields
    refine reads_typeDef_fields rfl (by simp) (by simp [hplain, Datum.Plain.ofOption, Datum.Plain.text]) ?_
    simp only [TypeDef.ofTagged, Datum.asTypeFields, String.reduceEq, ↓reduceIte]
    exact Datum.asRecord_map (a := (name, fields)) _ (by decide)
      (.cons (Datum.map_read hname _) (.cons (Datum.map_read hfields _) (.nil _))) rfl

theorem reads_instruction_fields {name : String} {entries : List (String × Datum)} {inst : Instruction}
    (hname : Instruction.variants.contains name = true) (hkeys : ∀ e ∈ entries, e.1 ≠ "op")
    (hplain : ∀ e ∈ entries, e.2.Plain innerDepth)
    (hread : Instruction.ofTagged name (.fields entries) = .ok inst) :
    Reads instruction (.fields (("op", .text name) :: entries)) inst :=
  reads_ofMismatch (fun content : String × Datum => Instruction.ofTagged content.1 content.2)
    (reads_tagged _ hname hkeys hplain) hread

theorem reads_instruction (inst : Instruction) : Reads instruction inst.toDatum inst := by
  -- operands nest two deep, lists of operands and callees three
  have htype : ∀ t : TypeId, t.toDatum.Plain innerDepth := Datum.Plain.typeId _
  have hvalue : ∀ v : Value, v.toDatum.Plain innerDepth := Datum.Plain.value _
  have hvalues : ∀ vs : List Value, (Value.listToDatum vs).Plain innerDepth :=
    Datum.Plain.list_map (Datum.Plain.value _)
  have hcallee : ∀ c : Callee, c.toDatum.Plain innerDepth := Datum.Plain.callee _
  have htext : ∀ s : String, (Datum.text s).Plain innerDepth := .text _
  cases inst with
  | gep sourceType base indices =>
    refine reads_instruction_fields rfl (by simp) (by simp [htype, hvalue, hvalues]) ?_
    simp only [Instruction.ofTagged, Datum.asInstructionFields, ↓reduceIte]
    exact Datum.asRecord_map (a := ConstGep.mk sourceType base indices) _ (by decide)
      (.cons (Datum.map_read (Datum.asTypeId_toDatum sourceType) _)
        (.cons (Datum.map_read (Datum.asValue_toDatum base) _)
          (.cons (Datum.map_read (Datum.asList_listToDatum indices) _) (.nil _)))) rfl
  | load type address =>
    refine reads_instruction_fields rfl (by simp) (by simp [htype, hvalue]) ?_
    simp only [Instruction.ofTagged, Datum.asInstructionFields, String.reduceEq, ↓reduceIte]
    exact Datum.asRecord_map (a := (type, address)) _ (by decide)
      (.cons (Datum.map_read (Datum.asTypeId_toDatum type) _)
        (.cons (Datum.map_read (Datum.asValue_toDatum address) _) (.nil _))) rfl
  | store value address =>
    refine reads_instruction_fields rfl (by simp) (by simp [hvalue]) ?_
    simp only [Instruction.ofTagged, Datum.asInstructionFields, String.reduceEq, ↓reduceIte]
    exact Datum.asRecord_map (a := (value, address)) _ (by decide)
      (.cons (Datum.map_read (Datum.asValue_toDatum value) _)
        (.cons (Datum.map_read (Datum.asValue_toDatum address) _) (.nil _))) rfl
  | call callee args =>
    refine reads_instruction_fields rfl (by simp) (by simp [hcallee, hvalues]) ?_
    simp only [Instruction.ofTagged, Datum.asInstructionFields, String.reduceEq, ↓reduceIte]
    exact Datum.asRecord_map (a := (callee, args)) _ (by decide)
      (.cons (Datum.map_read (Datum.asCallee_toDatum callee) _)
        (.cons (Datum.map_read (Datum.asList_listToDatum args) _) (.nil _))) rfl
  | other opcode operands =>
    refine reads_instruction_fields rfl (by simp) (by simp [htext, hvalues]) ?_
    simp only [Instruction.ofTagged, Datum.asInstructionFields, String.reduceEq, ↓reduceIte]
    exact Datum.asRecord_map (a := (opcode, operands)) _ (by decide)
      (.cons (Datum.map_read (Datum.asText_text opcode) fun s => (s, []))
        (.cons (Datum.map_read (Datum.asList_listToDatum operands) _) (.nil _))) rfl

theorem text_ne_null (s : String) (rest : List Char) : chars (.text s) ≠ 'n' :: rest := by
  simp [chars, textChars]

theorem ofUInt64_ne_null (n : UInt64) (rest : List Char) : chars (.ofUInt64 n) ≠ 'n' :: rest := by
  obtain ⟨c, ds, hc, _, hchars⟩ := chars_natural n.toNat
  rw [Datum.ofUInt64, hchars]
  rintro h
  obtain ⟨rfl, _⟩ := List.cons.inj h
  exact absurd hc (by decide)

theorem reads_typeId (t : TypeId) : Reads typeId t.toDatum t :=
  (reads_uint32 t.index).map TypeId.mk

theorem reads_argument (function : FunctionId) (index : UInt32) :
    Reads (record "struct variant Value::Argument" (Value.argumentFields functionId uint32) (⟨0⟩, 0))
      (.fields [("function", .ofUInt32 function.index), ("index", .ofUInt32 index)]) (function, index) :=
  reads_record _ (by decide) (.cons (((reads_uint32 function.index).map FunctionId.mk).map _)
    (.cons ((reads_uint32 index).map _) (.nil _))) rfl

theorem reads_value (v : Value) : Reads value v.toDatum v := by
  cases v with
  | constInt n => exact reads_variant rfl ((reads_uint64 n).map _)
  | global id => exact reads_variant rfl ((reads_uint32 id.index).map _)
  | argument function index => exact reads_variant rfl ((reads_argument function index).map _)
  | inst id => exact reads_variant rfl ((reads_uint32 id.index).map _)
  | const id => exact reads_variant rfl ((reads_uint32 id.index).map _)

theorem reads_values (values : List Value) : Reads (list value) (Value.listToDatum values) values :=
  reads_list fun v _ => reads_value v

theorem reads_constGep (c : ConstGep) : Reads constGep c.toDatum c :=
  reads_record _ (by decide) (.cons ((reads_typeId c.sourceType).map _)
    (.cons ((reads_value c.base).map _) (.cons ((reads_values c.indices).map _) (.nil _)))) rfl

theorem reads_global (g : Global) : Reads global g.toDatum g := by
  have hinit := reads_option reads_uint64 ofUInt64_ne_null g.initializer
  exact reads_record _ (by decide) (.cons ((reads_text g.name).map _)
    (.cons ((reads_typeId g.valueType).map _) (.cons (hinit.map _) (.nil _)))) rfl

theorem reads_block (b : Block) : Reads block b.toDatum b := by
  have hlabel := reads_option reads_text text_ne_null b.label
  have hinsts : Reads (list instId) (.list (b.insts.map fun i => .ofUInt32 i.index)) b.insts :=
    reads_list fun i _ => (reads_uint32 i.index).map InstId.mk
  exact reads_record _ (by decide) (.cons (hlabel.map _) (.cons (hinsts.map _) (.nil _))) rfl

theorem reads_function (f : Function) : Reads function f.toDatum f := by
  have hblocks : Reads (list block) (.list (f.blocks.map Block.toDatum)) f.blocks :=
    reads_list fun b _ => reads_block b
  exact reads_record _ (by decide) (.cons ((reads_text f.name).map _)
    (.cons ((reads_uint32 f.params).map _) (.cons (hblocks.map _) (.nil _)))) rfl

theorem reads_program (p : Program) : Reads program p.toDatum p := by
  have htypes : Reads (list typeDef) _ p.types.toList := reads_list fun t _ => reads_typeDef t
  have hglobals : Reads (list global) _ p.globals.toList := reads_list fun g _ => reads_global g
  have hfunctions : Reads (list function) _ p.functions.toList := reads_list fun f _ => reads_function f
  have hinsts : Reads (list instruction) _ p.instructions.toList := reads_list fun i _ => reads_instruction i
  have hconstants : Reads (list constGep) _ p.constants.toList := reads_list fun c _ => reads_constGep c
  exact reads_record _ (by decide) (.cons (htypes.map _) (.cons (hglobals.map _) (.cons (hfunctions.map _)
    (.cons (hinsts.map _) (.cons (hconstants.map _) (.nil _)))))) rfl

end Json.Reader

namespace Program

/-- Reading the arenas undoes writing them, for references that lead nowhere as well. -/
theorem readJson_renderJson (p : Program) : readJson p.renderJson = .ok p :=
  (reads_program p).run_render

theorem checked_eq_ok {p : Program} {q : IndexedProgram} (h : p.checked = .ok q) :
    q.validate = .ok () ∧ q = q.toProgram.index := by
  unfold checked at h
  split at h
  next hv =>
    obtain rfl := Except.ok.inj h
    exact ⟨hv, rfl⟩
  next => simp at h

theorem ofJson_eq_ok {text : String} {q : IndexedProgram} (h : ofJson text = .ok q) :
    q.validate = .ok () ∧ q = q.toProgram.index := by
  unfold ofJson at h
  split at h
  next => exact checked_eq_ok h
  next => simp at h

/-- A printed program is loaded if its references resolve, with all its arenas and its use lists, and refused for
the first one that does not. So what was loaded from any text is loaded again from its printed form. -/
theorem ofJson_renderJson (p : Program) :
    (p.validate = .ok () → ∃ q, ofJson p.renderJson = .ok q ∧ q.toProgram = p ∧
      ∀ v, q.users v = p.index.users v) ∧
    (∀ reference, p.validate = .error reference → ofJson p.renderJson = .error (.dangling reference)) ∧
    ∀ text q, ofJson text = .ok q → ofJson q.toProgram.renderJson = .ok q := by
  have hload : ∀ p : Program, ofJson p.renderJson = p.checked := by
    intro p
    rw [ofJson, readJson_renderJson]
  have hvalid : ∀ p : Program, p.validate = .ok () → ofJson p.renderJson = .ok p.index := by
    intro p hv
    rw [hload, checked, hv]
  refine ⟨?_, ?_, ?_⟩
  · intro hv
    exact ⟨p.index, hvalid p hv, rfl, fun _ => rfl⟩
  · intro reference he
    rw [hload, checked, he]
  · intro text q hq
    obtain ⟨hv, hindex⟩ := ofJson_eq_ok hq
    rw [hvalid q.toProgram hv, ← hindex]

/-- A structure with an empty name, a literal one, and a global called by an escaped name. -/
def oddNames : Program where
  types := #[.int 32, .struct (some "") [⟨0⟩], .struct none [], .pointer none, .array ⟨1⟩ 0xFFFFFFFFFFFFFFFF]
  globals := #[{ name := "\"\\\n\x01é", valueType := ⟨1⟩, initializer := some 0xFFFFFFFFFFFFFFFF }]
  functions := #[{ name := "main", params := 0xFFFFFFFF, blocks := [{ label := some "", insts := [⟨0⟩] }, {}] }]
  instructions := #[.load ⟨0⟩ (.const ⟨0⟩)]
  constants := #[⟨⟨1⟩, .global ⟨0⟩, [.constInt 0, .argument ⟨0⟩ 0xFFFFFFFE]⟩]

theorem ofJson_renderJson_oddNames :
    (∃ q, ofJson oddNames.renderJson = .ok q ∧ q.toProgram = oddNames ∧
      ∀ v, q.users v = oddNames.index.users v) ∧
    ofJson { oddNames with constants := #[] }.renderJson = .error (.dangling ⟨.constant, 0⟩) :=
  ⟨(ofJson_renderJson oddNames).1 rfl, (ofJson_renderJson { oddNames with constants := #[] }).2.1 _ rfl⟩

end Program

end HotFields
