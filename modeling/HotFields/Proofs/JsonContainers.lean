import HotFields.Proofs.JsonScalars

namespace HotFields.Json.Reader

variable {α : Type}

/-- A printed value that does not start like `null` is not taken for an absent one. -/
theorem reads_option {value : Reader α} {print : α → Datum} (h : ∀ a, Reads value (print a) a)
    (hnull : ∀ a cs, chars (print a) ≠ 'n' :: cs) (o : Option α) :
    Reads (option value) (.ofOption print o) o := by
  cases o with
  | none =>
    refine ⟨?_, ?_⟩
    · rw [Datum.ofOption, chars]
      exact ⟨rfl, by decide⟩
    · intro rest _
      rw [Datum.ofOption, chars]
      rfl
  | some a =>
    refine ⟨(h a).opens, ?_⟩
    intro rest hr
    have hread := (h a).read rest hr
    obtain ⟨c, cs, hcs, hblank, _⟩ := (h a).opens.exists_cons
    rw [hcs, List.cons_append] at hread
    rw [Datum.ofOption, hcs]
    unfold option
    rw [List.cons_append, bind_of_ok (peek_cons hblank _)]
    refine Eq.trans (congrFun ?_ _) (map_of_ok some hread)
    split
    next hn =>
      obtain rfl := Option.some.inj hn
      exact absurd hcs (hnull a cs)
    next => rfl

theorem Opens.append {text : List Char} (h : Opens text) (rest : List Char) : Opens (text ++ rest) := by
  obtain ⟨c, cs, rfl, hc⟩ := h.exists_cons
  exact hc

theorem ends_flatMap {print : α → List Char} (as : List α) {c : Char} {rest : List Char}
    (hc : Ends (c :: rest)) : Ends (as.flatMap (fun a => ',' :: print a) ++ c :: rest) := by
  cases as with
  | nil => exact hc
  | cons a as => exact .inl rfl

theorem itemChars_cons (d : Datum) (ds : List Datum) :
    itemChars (d :: ds) = chars d ++ ds.flatMap fun d => ',' :: chars d := by
  induction ds generalizing d with
  | nil => simp [itemChars]
  | cons e ds ih =>
    rw [itemChars, ih, List.flatMap_cons]
    · rfl
    · simp

theorem hasItem_true {text : List Char} (h : Opens text) : hasItem true text = .ok (true, text) := by
  obtain ⟨c, rest, rfl, hblank, hc⟩ := h.exists_cons
  unfold hasItem
  rw [bind_of_ok (peek_cons hblank rest)]
  refine Eq.trans (congrFun ?_ _) (show (pure true : Reader Bool) (c :: rest) = _ from rfl)
  split
  next h => exact absurd h (by simp)
  next h => exact absurd (Option.some.inj h) hc
  next => rfl

theorem hasItem_false {text : List Char} (h : Opens text) :
    hasItem false (',' :: text) = .ok (true, text) := by
  obtain ⟨c, rest, rfl, hblank, hc⟩ := h.exists_cons
  have hcomma : hasItem false (',' :: c :: rest) = itemAfterComma (c :: rest) := rfl
  rw [hcomma, itemAfterComma, bind_of_ok (peek_cons hblank rest)]
  refine Eq.trans (congrFun ?_ _) (show (pure true : Reader Bool) (c :: rest) = _ from rfl)
  split
  next h => exact absurd h (by simp)
  next h => exact absurd (Option.some.inj h) hc
  next => rfl

theorem itemsFrom_step {item : Reader α} {first : Bool} {x : Char} {fuel text front tail rest : List Char}
    {a : α} {as : List α} (hhas : hasItem first text = .ok (true, front ++ tail))
    (hitem : item (front ++ tail) = .ok (a, tail)) (htail : itemsFrom item fuel false tail = .ok (as, rest)) :
    itemsFrom item (x :: fuel) first text = .ok (a :: as, rest) := by
  rw [itemsFrom, bind_of_ok hhas, if_pos rfl, bind_of_ok hitem, bind_of_ok htail]
  rfl

/-- Items are read one by one, each after a comma, until the bracket closes. -/
theorem itemsFrom_false {item : Reader α} {print : α → Datum} (as : List α)
    (h : ∀ a ∈ as, Reads item (print a) a) : ∀ fuel rest : List Char, as.length < fuel.length →
      itemsFrom item fuel false ((as.map print).flatMap (fun d => ',' :: chars d) ++ ']' :: rest) =
        .ok (as, ']' :: rest) := by
  induction as with
  | nil =>
    intro fuel rest hf
    cases fuel with
    | nil => simp at hf
    | cons x fuel => rfl
  | cons a as ih =>
    intro fuel rest hf
    cases fuel with
    | nil => simp at hf
    | cons x fuel =>
      have ha := h a (by simp)
      have hends : Ends ((as.map print).flatMap (fun d => ',' :: chars d) ++ ']' :: rest) :=
        ends_flatMap _ (.inr (.inl rfl))
      have htail := ih (fun b hb => h b (by simp [hb])) fuel rest (by simpa using hf)
      rw [List.map_cons, List.flatMap_cons, List.append_assoc, List.cons_append]
      exact itemsFrom_step (hasItem_false (ha.opens.append _)) (ha.read _ hends) htail

theorem length_le_separated (as : List α) (print : α → List Char) :
    as.length ≤ (as.flatMap fun a => ',' :: print a).length := by
  induction as with
  | nil => simp
  | cons a as ih =>
    simp only [List.flatMap_cons, List.length_append, List.length_cons]
    omega

/-- The first item stands without a comma. The text is long enough to bound the number of its items. -/
theorem items_true {item : Reader α} {print : α → Datum} {as : List α}
    (h : ∀ a ∈ as, Reads item (print a) a) (rest : List Char) :
    items true item (itemChars (as.map print) ++ ']' :: rest) = .ok (as, rest) := by
  cases as with
  | nil =>
    rw [List.map_nil, itemChars]
    rfl
  | cons a as =>
    have ha := h a (by simp)
    have hends : Ends ((as.map print).flatMap (fun d => ',' :: chars d) ++ ']' :: rest) :=
      ends_flatMap _ (.inr (.inl rfl))
    have hlength := length_le_separated (as.map print) chars
    rw [List.length_map] at hlength
    have hitems : ∀ fuel : List Char, as.length + 1 < fuel.length →
        itemsFrom item fuel true (itemChars ((a :: as).map print) ++ ']' :: rest) =
          .ok (a :: as, ']' :: rest) := by
      intro fuel hf
      cases fuel with
      | nil => simp at hf
      | cons x fuel =>
        have htail := itemsFrom_false as (fun b hb => h b (by simp [hb])) fuel rest (by
          simp only [List.length_cons] at hf
          omega)
        rw [List.map_cons, itemChars_cons, List.append_assoc]
        exact itemsFrom_step (hasItem_true (ha.opens.append _)) (ha.read _ hends) htail
    obtain ⟨c, cs, hcs, _⟩ := ha.opens.exists_cons
    unfold items
    rw [bind_of_ok (hitems _ ?_)]
    · rfl
    · rw [List.map_cons, itemChars_cons, hcs]
      simp only [List.length_append, List.length_cons]
      omega

theorem chars_list_append (ds : List Datum) (rest : List Char) :
    chars (.list ds) ++ rest = '[' :: (itemChars ds ++ ']' :: rest) := by
  simp [chars]

theorem reads_list {item : Reader α} {print : α → Datum} {as : List α}
    (h : ∀ a ∈ as, Reads item (print a) a) : Reads (list item) (.list (as.map print)) as where
  opens := by rw [chars]; exact ⟨rfl, by decide⟩
  read rest _ := by
    rw [chars_list_append]
    exact items_true h rest

theorem entryChars_cons (e : String × Datum) (es : List (String × Datum)) :
    entryChars ((e :: es).map fun (key, d) => (.text key, d)) =
      textChars e.1 ++ ':' :: (chars e.2 ++ es.flatMap fun e => ',' :: (textChars e.1 ++ ':' :: chars e.2)) := by
  induction es generalizing e with
  | nil => simp [entryChars, keyChars]
  | cons f es ih =>
    have hrest := ih f
    rw [List.map_cons] at hrest
    rw [List.map_cons, List.map_cons, entryChars, hrest, List.flatMap_cons]
    · simp [keyChars]
    · simp

theorem chars_fields_append (entries : List (String × Datum)) (rest : List Char) :
    chars (.fields entries) ++ rest =
      '{' :: (entryChars (entries.map fun (key, d) => (.text key, d)) ++ '}' :: rest) := by
  simp [Datum.fields, chars]

theorem opens_fields (entries : List (String × Datum)) : Opens (chars (.fields entries)) := by
  rw [Datum.fields, chars]
  exact ⟨rfl, by decide⟩

theorem colon_cons (rest : List Char) : colon (':' :: rest) = .ok ((), rest) :=
  rfl

/-- The states that a reader of members goes through while it reads printed members. -/
inductive Fills (member : String → α → Reader α) : α → List (String × Datum) → α → Prop
  | nil (a : α) : Fills member a [] a
  | cons {a b c : α} {key : String} {d : Datum} {entries : List (String × Datum)} :
      (∀ rest, Ends rest → member key a (':' :: (chars d ++ rest)) = .ok (b, rest)) →
        Fills member b entries c → Fills member a ((key, d) :: entries) c

theorem members_step {member : String → α → Reader α} {first : Bool} {x : Char}
    {fuel text front tail rest : List Char} {key : String} {a b c : α}
    (hhas : hasMember first text =
      .ok (true, key.toList.flatMap escapedChar ++ '"' :: ':' :: (front ++ tail)))
    (hmember : member key a (':' :: (front ++ tail)) = .ok (b, tail))
    (htail : members member fuel false b tail = .ok (c, rest)) :
    members member (x :: fuel) first a text = .ok (c, rest) := by
  rw [members, bind_of_ok hhas, if_pos rfl, bind_of_ok (textAfterQuote_escaped key _), bind_of_ok hmember]
  exact htail

/-- By induction on the members, with more fuel than there are members. -/
theorem Fills.members_false {member : String → α → Reader α} {a b : α} {entries : List (String × Datum)}
    (h : Fills member a entries b) : ∀ fuel rest : List Char, entries.length < fuel.length →
      members member fuel false a
          (entries.flatMap (fun e => ',' :: (textChars e.1 ++ ':' :: chars e.2)) ++ '}' :: rest) =
        .ok (b, rest) := by
  induction h with
  | nil a =>
    intro fuel rest hf
    cases fuel with
    | nil => simp at hf
    | cons x fuel => rfl
  | @cons a b c key d entries hmember _ ih =>
    intro fuel rest hf
    cases fuel with
    | nil => simp at hf
    | cons x fuel =>
      have hends : Ends (entries.flatMap (fun e => ',' :: (textChars e.1 ++ ':' :: chars e.2)) ++
          '}' :: rest) := ends_flatMap _ (.inr (.inr rfl))
      have htail := ih fuel rest (by simpa using hf)
      rw [List.flatMap_cons, List.append_assoc, List.cons_append, List.append_assoc, textChars_append]
      exact members_step rfl (hmember _ hends) htail

/-- An object is read through the states of its members. -/
theorem Fills.object {member : String → α → Reader α} {a b : α} {entries : List (String × Datum)}
    (h : Fills member a entries b) (rest : List Char) :
    object member a (entryChars (entries.map fun (key, d) => (.text key, d)) ++ '}' :: rest) =
      .ok (b, rest) := by
  cases h with
  | nil =>
    rw [List.map_nil, entryChars]
    rfl
  | @cons _ b _ key d entries hmember hfills =>
    have hends : Ends (entries.flatMap (fun e => ',' :: (textChars e.1 ++ ':' :: chars e.2)) ++
        '}' :: rest) := ends_flatMap _ (.inr (.inr rfl))
    have hlength := length_le_separated entries fun e => textChars e.1 ++ ':' :: chars e.2
    rw [entryChars_cons, List.append_assoc, List.cons_append, List.append_assoc, textChars_append]
    unfold Reader.object
    refine members_step rfl (hmember _ hends) (hfills.members_false _ rest ?_)
    simp only [List.length_append, List.length_cons]
    omega

end HotFields.Json.Reader
