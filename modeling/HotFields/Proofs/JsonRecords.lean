import HotFields.Proofs.JsonContainers

namespace HotFields

variable {α : Type}

namespace Field

variable {m : Type → Type}

/-- The fields of a record take one datum each and fill a draft step by step. -/
inductive FilledBy (reads : m α → Datum → α → Prop) : List (Field m α) → List Datum → α → α → Prop
  | nil (a : α) : FilledBy reads [] [] a a
  | cons {f : Field m α} {fields : List (Field m α)} {d : Datum} {ds : List Datum} {a b c : α} :
      reads (f.fill a) d b → FilledBy reads fields ds b c → FilledBy reads (f :: fields) (d :: ds) a c

/-- A record as it is printed, one datum for each field. -/
def entries (fields : List (Field m α)) (ds : List Datum) : List (String × Datum) :=
  (fields.map Field.name).zip ds

/-- With different names every field is found by its own. -/
theorem find?_name {f : Field m α} {before after : List (Field m α)}
    (distinct : ((before ++ f :: after).map Field.name).Nodup) :
    (before ++ f :: after).find? (fun g => g.name == f.name) = some f ∧
      ((before.map Field.name).reverse.contains f.name) = false := by
  rw [List.map_append, List.map_cons] at distinct
  have hapart := (List.nodup_append.mp distinct).2.2
  have hbefore : ∀ g ∈ before, g.name ≠ f.name := fun g hg =>
    hapart g.name (List.mem_map_of_mem hg) f.name (by simp)
  constructor
  · have hnone : before.find? (fun g => g.name == f.name) = none := by
      simpa using hbefore
    simp [hnone]
  · simpa using hbefore

theorem firstMissing_all (fields : List (Field m α)) :
    firstMissing fields (fields.map Field.name).reverse = none := by
  have hseen : ∀ f ∈ fields, (fields.map Field.name).reverse.contains f.name = true := by
    intro f hf
    simpa using ⟨f, hf, rfl⟩
  unfold firstMissing
  rw [Option.map_eq_none_iff, List.find?_eq_none]
  intro f hf
  rw [hseen f hf]
  simp

end Field

/-- The entries of the remaining fields fill the draft, whatever fields were passed before. -/
theorem Datum.fillEntries_entries {fields : List (Datum.ReadField α)}
    (distinct : (fields.map Field.name).Nodup) (before : List (Datum.ReadField α))
    {after : List (Datum.ReadField α)} {ds : List Datum} {a c : α} (hfields : fields = before ++ after)
    (h : Field.FilledBy (fun read d a => read d = .ok a) after ds a c) :
    Datum.fillEntries fields ((Field.entries after ds).map fun (key, d) => (.text key, d))
      (before.map Field.name).reverse a = .ok c := by
  induction h generalizing before with
  | nil a =>
    have hall := Field.firstMissing_all fields
    rw [hfields, List.append_nil] at hall ⊢
    simp only [Field.entries, List.map_nil, List.zip_nil_left, Datum.fillEntries, hall]
  | @cons f after d ds a b _ hread _ ih =>
    obtain ⟨hfind, hnew⟩ := Field.find?_name (hfields ▸ distinct)
    rw [← hfields] at hfind
    have hkey : Datum.fieldAt fields (.text f.name) = .ok (some f) := by
      rw [Datum.fieldAt, hfind]
    have hrest := ih (before ++ [f]) (by simp [hfields])
    rw [List.map_append, List.reverse_append] at hrest
    simp only [Field.entries, List.map_cons, List.zip_cons_cons, Datum.fillEntries, hkey, hnew, bind,
      Except.bind, hread]
    exact hrest

/-- Whole data with all fields is decoded as they fill the draft. -/
theorem Datum.asRecord_entries (shape otherwise : String) {fields : List (Datum.ReadField α)}
    {ds : List Datum} {entries : List (String × Datum)} {draft filled : α}
    (distinct : (fields.map Field.name).Nodup)
    (h : Field.FilledBy (fun read d a => read d = .ok a) fields ds draft filled)
    (printed : Field.entries fields ds = entries) :
    Datum.asRecord shape otherwise fields draft (.fields entries) = .ok filled := by
  subst printed
  exact Datum.fillEntries_entries distinct [] rfl h

/-- Data of null, texts, 64 bit numbers, lists and records with texts as keys, nested to a depth at most. -/
inductive Datum.Plain : Nat → Datum → Prop
  | null (depth : Nat) : Plain depth .null
  | natural (depth : Nat) {n : Nat} : n < UInt64.size → Plain depth (.natural n)
  | text (depth : Nat) (s : String) : Plain depth (.text s)
  | list {depth : Nat} {ds : List Datum} : (∀ d ∈ ds, Plain depth d) → Plain (depth + 1) (.list ds)
  | fields {depth : Nat} {entries : List (String × Datum)} :
      (∀ e ∈ entries, Plain depth e.2) → Plain (depth + 1) (.fields entries)

namespace Json.Reader

/-- The members of the remaining fields are read, whatever fields were passed before. -/
theorem fills_entries {fields : List (ReadField α)} (distinct : (fields.map Field.name).Nodup)
    (before : List (ReadField α)) {after : List (ReadField α)} {ds : List Datum} {a c : α}
    (hfields : fields = before ++ after) (h : Field.FilledBy Reads after ds a c) :
    Fills (fillMember fields) ((before.map Field.name).reverse, a) (Field.entries after ds)
      ((fields.map Field.name).reverse, c) := by
  induction h generalizing before with
  | nil a =>
    rw [hfields, List.append_nil]
    exact .nil _
  | @cons f after d ds a b _ hread _ ih =>
    obtain ⟨hfind, hnew⟩ := Field.find?_name (hfields ▸ distinct)
    rw [← hfields] at hfind
    have hrest := ih (before ++ [f]) (by simp [hfields])
    rw [List.map_append, List.reverse_append] at hrest
    refine .cons ?_ hrest
    intro rest hr
    unfold fillMember
    rw [hfind]
    simp only [hnew]
    rw [if_neg (by decide), bind_of_ok (colon_cons _), bind_of_ok (hread.read rest hr)]
    rfl

/-- A record is read from an object that has all its fields. -/
theorem reads_record (shape : String) {fields : List (ReadField α)} {ds : List Datum}
    {entries : List (String × Datum)} {draft filled : α} (distinct : (fields.map Field.name).Nodup)
    (h : Field.FilledBy Reads fields ds draft filled) (printed : Field.entries fields ds = entries) :
    Reads (record shape fields draft) (.fields entries) filled := by
  subst printed
  have hfills : Fills (fillMember fields) ([], draft) _ _ := fills_entries distinct [] rfl h
  refine ⟨opens_fields _, ?_⟩
  intro rest _
  have hbrace : ∀ inner, record shape fields draft ('{' :: inner) = recordMembers fields draft inner :=
    fun _ => rfl
  rw [chars_fields_append, hbrace, recordMembers, bind_of_ok (hfills.object rest)]
  simp only [Field.firstMissing_all]
  rfl

theorem variantName_textChars {known : List String} {name : String} (hname : known.contains name = true)
    (rest : List Char) : variantName known (textChars name ++ rest) = .ok (name, rest) := by
  unfold variantName
  rw [bind_of_ok (textOr_textChars _ _ _), Datum.pickVariant, if_pos hname]
  rfl

/-- A variant is read from an object with its name as the only key. -/
theorem reads_variant {known : List String} {bare : String → Mismatch} {content : String → Reader α}
    {name : String} {d : Datum} {a : α} (hname : known.contains name = true) (h : Reads (content name) d a) :
    Reads (variant known bare content) (.fields [(name, d)]) a := by
  refine ⟨opens_fields _, ?_⟩
  intro rest _
  have hcontent := h.read ('}' :: rest) (.inr (.inr rfl))
  have hbrace : ∀ inner, variant known bare content ('{' :: inner) = variantMember known content inner :=
    fun _ => rfl
  rw [chars_fields_append, entryChars_cons, hbrace, variantMember]
  simp only [List.flatMap_nil, List.append_nil, List.append_assoc, List.cons_append]
  rw [bind_of_ok (variantName_textChars hname _), bind_of_ok (colon_cons _), bind_of_ok hcontent]
  rfl

theorem datum_scalar (depth : Nat) {c : Char} {rest : List Char} (hblank : isBlank c = false)
    (hlist : c ≠ '[') (hrecord : c ≠ '{') : datum depth (c :: rest) = scalar (c :: rest) := by
  cases depth with
  | zero => rfl
  | succ depth =>
    rw [datum, bind_of_ok (peek_cons hblank rest)]
    refine congrFun ?_ _
    split
    next h => exact absurd (Option.some.inj h) hlist
    next h => exact absurd (Option.some.inj h) hrecord
    next => rfl

/-- The reader tells a number by its first digit and then takes all of them. -/
theorem scalar_natural {n : Nat} (hn : n < UInt64.size) {rest : List Char} (hr : Ends rest) :
    scalar (chars (.natural n) ++ rest) = .ok (.natural n, rest) := by
  have hnumber : number (chars (.natural n) ++ rest) = .ok (.natural n, rest) := by
    rw [chars, Nat.toList_repr]
    exact number_toDigits hn hr
  obtain ⟨c, ds, hc, hblank, hchars⟩ := chars_natural n
  rw [hchars, List.cons_append] at hnumber ⊢
  have hstarts : startsNumber c = true := by simp [startsNumber, hc]
  unfold scalar
  rw [bind_of_ok (peek_cons hblank _)]
  refine Eq.trans (congrFun ?_ _) hnumber
  -- no keyword and no text starts with a digit
  split
  next h => exact absurd h (by simp)
  next h => obtain rfl := Option.some.inj h; exact absurd hc (by decide)
  next h => obtain rfl := Option.some.inj h; exact absurd hc (by decide)
  next h => obtain rfl := Option.some.inj h; exact absurd hc (by decide)
  next h => obtain rfl := Option.some.inj h; exact absurd hc (by decide)
  next h =>
    obtain rfl := Option.some.inj h
    rw [if_pos hstarts]

/-- Members that are kept whole pile up in reverse. -/
theorem fills_pile {member : String → α → Reader α} {entries : List (String × Datum)}
    (place : List (Datum × Datum) → α)
    (h : ∀ e ∈ entries, ∀ pile rest, Ends rest →
      member e.1 (place pile) (':' :: (chars e.2 ++ rest)) = .ok (place ((.text e.1, e.2) :: pile), rest))
    (pile : List (Datum × Datum)) :
    Fills member (place pile) entries
      (place ((entries.map fun (key, d) => (Datum.text key, d)).reverse ++ pile)) := by
  induction entries generalizing pile with
  | nil => exact .nil _
  | cons e entries ih =>
    have hrest := ih (fun e he => h e (by simp [he])) ((.text e.1, e.2) :: pile)
    rw [List.map_cons, List.reverse_cons, List.append_assoc]
    exact .cons (h e (by simp) pile) hrest

theorem reads_datum_natural (depth : Nat) {n : Nat} (hn : n < UInt64.size) :
    Reads (datum depth) (.natural n) (.natural n) where
  opens := opens_natural n
  read rest hr := by
    have hscalar := scalar_natural hn hr
    obtain ⟨c, ds, hc, hblank, hchars⟩ := chars_natural n
    rw [hchars, List.cons_append] at hscalar ⊢
    rw [datum_scalar depth hblank, hscalar]
    all_goals rintro rfl; exact absurd hc (by decide)

theorem reads_datum_list {depth : Nat} {ds : List Datum} (h : ∀ d ∈ ds, Reads (datum depth) d d) :
    Reads (datum (depth + 1)) (.list ds) (.list ds) where
  opens := by rw [chars]; exact ⟨rfl, by decide⟩
  read rest _ := by
    have hitems : items true (datum depth) (itemChars (ds.map id) ++ ']' :: rest) = .ok (ds, rest) :=
      items_true h rest
    rw [List.map_id] at hitems
    rw [chars_list_append]
    exact map_of_ok Datum.list hitems

/-- One level of nesting is used up by the object, and its members are read with what is left. -/
theorem reads_datum_fields {depth : Nat} {entries : List (String × Datum)}
    (h : ∀ e ∈ entries, Reads (datum depth) e.2 e.2) :
    Reads (datum (depth + 1)) (.fields entries) (.fields entries) where
  opens := opens_fields entries
  read rest _ := by
    let member := fun key (pile : List (Datum × Datum)) => (do
      colon
      return (Datum.text key, ← datum depth) :: pile : Reader (List (Datum × Datum)))
    have hfills : Fills member [] entries
        ((entries.map fun (key, d) => (Datum.text key, d)).reverse ++ []) := by
      refine fills_pile id ?_ []
      intro e he pile rest hr
      change (colon >>= _) _ = _
      rw [bind_of_ok (colon_cons _), bind_of_ok ((h e he).read rest hr)]
      rfl
    have hbrace : ∀ inner, datum (depth + 1) ('{' :: inner) =
        (object member [] >>= fun entries => return .record entries.reverse) inner := fun _ => rfl
    rw [chars_fields_append, hbrace, bind_of_ok (hfills.object rest), List.append_nil, List.reverse_reverse]
    rfl

/-- Data is read back whole if it is not nested too deep. -/
theorem reads_datum {depth : Nat} {d : Datum} (h : d.Plain depth) : Reads (datum depth) d d := by
  induction h with
  | null depth =>
    refine ⟨by rw [chars]; exact ⟨rfl, by decide⟩, ?_⟩
    intro rest _
    rw [chars]
    exact (datum_scalar depth rfl (by decide) (by decide)).trans rfl
  | natural depth hn => exact reads_datum_natural depth hn
  | text depth s =>
    refine ⟨by rw [chars, textChars]; exact ⟨rfl, by decide⟩, ?_⟩
    intro rest _
    rw [chars, textChars_append, datum_scalar depth rfl (by decide) (by decide)]
    exact map_of_ok Datum.text (textAfterQuote_escaped s rest)
  | list _ ih => exact reads_datum_list ih
  | fields _ ih => exact reads_datum_fields ih

/-- A value with its tag in front is taken apart into its variant and its other members. -/
theorem reads_tagged (shape : String) {tag name : String} {known : List String} {depth : Nat}
    {entries : List (String × Datum)} (hname : known.contains name = true)
    (hkeys : ∀ e ∈ entries, e.1 ≠ tag) (hplain : ∀ e ∈ entries, e.2.Plain depth) :
    Reads (tagged shape tag known depth) (.fields ((tag, .text name) :: entries))
      (name, .fields entries) := by
  have hrest : Fills (taggedMember tag known depth) ⟨some name, []⟩ entries
      ⟨some name, (entries.map fun (key, d) => (Datum.text key, d)).reverse ++ []⟩ := by
    refine fills_pile (TaggedDraft.mk (some name)) ?_ []
    intro e he pile rest hr
    unfold taggedMember
    rw [if_neg (hkeys e he), bind_of_ok (colon_cons _),
      bind_of_ok ((reads_datum (hplain e he)).read rest hr)]
    rfl
  have hhead : ∀ rest, Ends rest → taggedMember tag known depth tag {} (':' :: (chars (.text name) ++ rest)) =
      .ok (⟨some name, []⟩, rest) := by
    intro rest _
    have hvariant : variantName known (chars (.text name) ++ rest) = .ok (name, rest) := by
      rw [chars]
      exact variantName_textChars hname rest
    unfold taggedMember
    rw [if_pos rfl, if_neg (by decide), bind_of_ok (colon_cons _), bind_of_ok hvariant]
    rfl
  refine ⟨opens_fields _, ?_⟩
  intro rest _
  have hbrace : ∀ inner, tagged shape tag known depth ('{' :: inner) = taggedMembers tag known depth inner :=
    fun _ => rfl
  rw [chars_fields_append, hbrace, taggedMembers, bind_of_ok ((Fills.cons hhead hrest).object rest)]
  simp only [List.append_nil, List.reverse_reverse]
  rfl

end Json.Reader

end HotFields
