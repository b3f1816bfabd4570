import HotFields.Program.Json

namespace HotFields.Json.Reader

variable {α β : Type}

theorem bind_of_ok {reader : Reader α} {next : α → Reader β} {text rest : List Char} {a : α}
    (h : reader text = .ok (a, rest)) : (reader >>= next) text = next a rest := by
  change (reader text >>= fun s => next s.1 s.2) = _
  rw [h]
  rfl

theorem map_of_ok {reader : Reader α} (f : α → β) {text rest : List Char} {a : α}
    (h : reader text = .ok (a, rest)) : (f <$> reader) text = .ok (f a, rest) := by
  change (reader text >>= fun s => pure (f s.1, s.2)) = _
  rw [h]
  rfl

theorem peek_cons {c : Char} (hc : isBlank c = false) (rest : List Char) :
    peek (c :: rest) = .ok (some c, c :: rest) := by
  simp [peek, hc]

/-- What may follow a value: nothing, a comma or a closing bracket. -/
def Ends : List Char → Prop
  | [] => True
  | c :: _ => c = ',' ∨ c = ']' ∨ c = '}'

/-- What may begin a value: neither a blank nor the end of a list. -/
def Opens : List Char → Prop
  | [] => False
  | c :: _ => isBlank c = false ∧ c ≠ ']'

theorem Opens.exists_cons {text : List Char} (h : Opens text) :
    ∃ c rest, text = c :: rest ∧ isBlank c = false ∧ c ≠ ']' := by
  cases text with
  | nil => exact h.elim
  | cons c rest => exact ⟨c, rest, rfl, h⟩

/-- A reader takes the printed characters of a datum for a value and leaves what follows. -/
structure Reads (reader : Reader α) (d : Datum) (a : α) : Prop where
  opens : Opens (chars d)
  read : ∀ rest, Ends rest → reader (chars d ++ rest) = .ok (a, rest)

theorem Reads.map {reader : Reader α} {d : Datum} {a : α} (h : Reads reader d a) (f : α → β) :
    Reads (f <$> reader) d (f a) where
  opens := h.opens
  read rest hr := map_of_ok f (h.read rest hr)

/-- A reader that reads a datum as the whole of a text succeeds. -/
theorem Reads.run_render {reader : Reader α} {d : Datum} {a : α} (h : Reads reader d a) :
    reader.run (render d) = .ok a := by
  have hread : reader (chars d) = .ok (a, []) := by simpa using h.read [] trivial
  unfold Reader.run render
  rw [String.toList_ofList]
  change (reader (chars d) >>= _) = _
  rw [hread]
  rfl

theorem hexValue?_digitChar : ∀ n < 16, Digit.hexValue? (Nat.digitChar n) = some n := by
  decide

/-- Control characters without a short escape are written with four digits, of which the first two are zero. -/
theorem unicodeEscape_digits {n : Nat} (hn : n < 0x20) (rest : List Char) :
    unicodeEscape ('0' :: '0' :: Nat.digitChar (n / 16) :: Nat.digitChar (n % 16) :: rest) =
      .ok (Char.ofNat n, rest) := by
  have hfour : fourDigits ('0' :: '0' :: Nat.digitChar (n / 16) :: Nat.digitChar (n % 16) :: rest) =
      .ok (n, rest) := by
    have hzero : Digit.hexValue? '0' = some 0 := rfl
    have hhigh := hexValue?_digitChar (n / 16) (by omega)
    have hlow := hexValue?_digitChar (n % 16) (by omega)
    simp only [fourDigits, hzero, hhigh, hlow]
    congr 2
    omega
  unfold unicodeEscape
  rw [bind_of_ok hfour]
  have hbelow : ¬ 0xDC00 ≤ n ∧ ¬ 0xD800 ≤ n := by omega
  simp [hbelow.1, hbelow.2]
  rfl

/-- One step of reading takes one character, however it was written. -/
theorem textBody_escapedChar (c x : Char) (fuel text : List Char) :
    textBody (x :: fuel) (escapedChar c ++ text) = (do return c :: (← textBody fuel)) text := by
  unfold escapedChar
  split
  next h => subst h; rfl
  split
  next h => subst h; rfl
  split
  next h => subst h; rfl
  split
  next h => subst h; rfl
  split
  next h => subst h; rfl
  split
  next h => subst h; rfl
  split
  next h => subst h; rfl
  split
  next hlow =>
    have hescape : escape ('u' :: '0' :: '0' :: Nat.digitChar (c.toNat / 16) ::
        Nat.digitChar (c.toNat % 16) :: text) = .ok (c, text) := by
      have h := unicodeEscape_digits hlow text
      rw [Char.ofNat_toNat] at h
      exact h
    change (escape >>= fun c => do return c :: (← textBody fuel)) ('u' :: '0' :: '0' ::
      Nat.digitChar (c.toNat / 16) :: Nat.digitChar (c.toNat % 16) :: text) = _
    rw [bind_of_ok hescape]
  next hq hb _ _ _ _ _ hplain =>
    rw [textBody, List.singleton_append, bind_of_ok (show next (c :: text) = .ok (some c, text) from rfl)]
    refine congrFun ?_ text
    split
    next h => exact absurd h (by simp)
    next h => exact absurd (Option.some.inj h) hq
    next h => exact absurd (Option.some.inj h) hb
    next d _ _ h =>
      obtain rfl := Option.some.inj h
      rw [if_neg hplain]

/-- By induction on the text: an escaped character is read as one, and no character inside is a closing mark. -/
theorem textBody_flatMap (s : List Char) : ∀ fuel rest : List Char, s.length < fuel.length →
    textBody fuel (s.flatMap escapedChar ++ '"' :: rest) = .ok (s, rest) := by
  induction s with
  | nil =>
    intro fuel rest hf
    cases fuel with
    | nil => simp at hf
    | cons x fuel => rfl
  | cons c s ih =>
    intro fuel rest hf
    cases fuel with
    | nil => simp at hf
    | cons x fuel =>
      have hrest := ih fuel rest (by simpa using hf)
      rw [List.flatMap_cons, List.append_assoc, textBody_escapedChar, bind_of_ok hrest]
      rfl

theorem length_le_escaped (s : List Char) : s.length ≤ (s.flatMap escapedChar).length := by
  have hchar : ∀ c, 1 ≤ (escapedChar c).length := by
    intro c
    unfold escapedChar
    repeat' split
    all_goals simp
  induction s with
  | nil => simp
  | cons c s ih =>
    have := hchar c
    simp only [List.flatMap_cons, List.length_append, List.length_cons]
    omega

/-- A text is read back whatever follows it. -/
theorem textAfterQuote_escaped (s : String) (rest : List Char) :
    textAfterQuote (s.toList.flatMap escapedChar ++ '"' :: rest) = .ok (s, rest) := by
  have hlength := length_le_escaped s.toList
  have hbody := textBody_flatMap s.toList (s.toList.flatMap escapedChar ++ '"' :: rest) rest (by
    simp only [List.length_append, List.length_cons]
    omega)
  have h := map_of_ok String.ofList hbody
  rw [String.ofList_toList] at h
  exact h

theorem textChars_append (s : String) (rest : List Char) :
    textChars s ++ rest = '"' :: (s.toList.flatMap escapedChar ++ '"' :: rest) := by
  simp [textChars]

theorem textOr_textChars (wanted s : String) (rest : List Char) :
    textOr wanted (textChars s ++ rest) = .ok (s, rest) := by
  rw [textChars_append]
  exact textAfterQuote_escaped s rest

theorem reads_text (s : String) : Reads text (.text s) s where
  opens := by rw [chars, textChars]; exact ⟨rfl, by decide⟩
  read rest _ := by
    rw [chars]
    exact textOr_textChars _ s rest

theorem value_digitChar : ∀ n < 10, Digit.value (Nat.digitChar n) = n := by
  decide

theorem digitChar_ne_zero : ∀ n < 10, 0 < n → Nat.digitChar n ≠ '0' := by
  decide

theorem pushInteger_of_lt {n : Nat} {c : Char} (h : n * 10 + Digit.value c < UInt64.size) :
    Scaled.pushInteger ⟨n, 0, false⟩ c = ⟨n * 10 + Digit.value c, 0, false⟩ :=
  if_neg (by simpa using h)

/-- The digits of a number that 64 bits hold are put together without loss. -/
theorem foldl_pushInteger_toDigits {n : Nat} (hn : n < UInt64.size) :
    (Nat.toDigits 10 n).foldl Scaled.pushInteger ⟨0, 0, false⟩ = ⟨n, 0, false⟩ := by
  induction n using Nat.strongRecOn with
  | ind n ih =>
    by_cases hsmall : n < 10
    · have hvalue := value_digitChar n hsmall
      rw [Nat.toDigits_of_lt_base hsmall, List.foldl_cons, List.foldl_nil, pushInteger_of_lt (by omega), hvalue]
      simp
    · have hvalue := value_digitChar (n % 10) (by omega)
      have hsum : n / 10 * 10 + n % 10 = n := by omega
      rw [Nat.toDigits_of_base_le (by decide) (by omega), List.foldl_append, ih (n / 10) (by omega) (by omega),
        List.foldl_cons, List.foldl_nil, pushInteger_of_lt (by omega), hvalue, hsum]

/-- Only zero is written with a zero in front. -/
theorem head?_toDigits_ne_zero {n : Nat} (hn : 0 < n) : (Nat.toDigits 10 n).head? ≠ some '0' := by
  induction n using Nat.strongRecOn with
  | ind n ih =>
    by_cases hsmall : n < 10
    · simpa [Nat.toDigits_of_lt_base hsmall] using digitChar_ne_zero n hsmall hn
    · have hsome : (Nat.toDigits 10 (n / 10)).head?.isSome = true := by simp
      rw [Nat.toDigits_of_base_le (by decide) (by omega), List.head?_append, Option.or_of_isSome hsome]
      exact ih (n / 10) (by omega) (by omega)

theorem digits_append {ds rest : List Char} (hds : ∀ c ∈ ds, c.isDigit = true) (hr : Ends rest) :
    digits (ds ++ rest) = .ok (ds, rest) := by
  have hstop : rest.takeWhile Char.isDigit = [] ∧ rest.dropWhile Char.isDigit = rest := by
    cases rest with
    | nil => exact ⟨rfl, rfl⟩
    | cons c rest => rcases hr with rfl | rfl | rfl <;> exact ⟨rfl, rfl⟩
  unfold digits
  rw [List.takeWhile_append_of_pos hds, List.dropWhile_append_of_pos hds, hstop.1, hstop.2,
    List.append_nil]

theorem numberTail_natural (n : Nat) {rest : List Char} (hr : Ends rest) :
    numberTail false ⟨n, 0, false⟩ rest = .ok (.natural n, rest) := by
  cases rest with
  | nil => rfl
  | cons c rest => rcases hr with rfl | rfl | rfl <;> rfl

/-- A number starts with a digit, and reading it goes on with all its digits. -/
theorem number_toDigits {n : Nat} (hn : n < UInt64.size) {rest : List Char} (hr : Ends rest) :
    number (Nat.toDigits 10 n ++ rest) = .ok (.natural n, rest) := by
  have hall : ∀ c ∈ Nat.toDigits 10 n, c.isDigit = true := fun c hc =>
    Nat.isDigit_of_mem_toDigits (by decide) (by decide) hc
  cases hds : Nat.toDigits 10 n with
  | nil => exact absurd hds Nat.toDigits_ne_nil
  | cons c ds =>
    have hc : c.isDigit = true := hall c (by simp [hds])
    have hlead : ¬ (c = '0' ∧ 1 < (c :: ds).length) := by
      rintro ⟨rfl, hlong⟩
      by_cases hzero : n = 0
      · subst hzero
        simp [Nat.toDigits_zero] at hds
        simp [hds] at hlong
      · exact head?_toDigits_ne_zero (Nat.pos_of_ne_zero hzero) (by rw [hds]; rfl)
    have hglance : glance (c :: ds ++ rest) = .ok (some c, c :: ds ++ rest) := rfl
    have hdigits : digits (c :: ds ++ rest) = .ok (c :: ds, rest) := digits_append (hds ▸ hall) hr
    have htail : numberTail false ((c :: ds).foldl Scaled.pushInteger ⟨0, 0, false⟩) rest =
        .ok (.natural n, rest) := by
      rw [← hds, foldl_pushInteger_toDigits hn]
      exact numberTail_natural n hr
    have hunsigned : unsignedNumber false (c :: ds ++ rest) = .ok (.natural n, rest) := by
      unfold unsignedNumber
      rw [bind_of_ok hglance]
      simp only [hc, if_true]
      rw [bind_of_ok hdigits, if_neg (by simpa using hlead)]
      exact htail
    unfold number
    rw [bind_of_ok hglance]
    refine Eq.trans (congrFun ?_ _) hunsigned
    split
    next h =>
      obtain rfl := Option.some.inj h
      exact absurd hc (by decide)
    next => rfl

theorem chars_natural (n : Nat) :
    ∃ c ds, c.isDigit = true ∧ isBlank c = false ∧ chars (.natural n) = c :: ds := by
  have hchars : chars (.natural n) = Nat.toDigits 10 n := by rw [chars, Nat.toList_repr]
  cases hds : Nat.toDigits 10 n with
  | nil => exact absurd hds Nat.toDigits_ne_nil
  | cons c ds =>
    have hc : c.isDigit = true :=
      Nat.isDigit_of_mem_toDigits (b := 10) (n := n) (by decide) (by decide) (by simp [hds])
    refine ⟨c, ds, hc, ?_, hchars.trans hds⟩
    unfold isBlank
    simp only [Bool.or_eq_false_iff, decide_eq_false_iff_not]
    refine ⟨⟨⟨?_, ?_⟩, ?_⟩, ?_⟩ <;> rintro rfl <;> exact absurd hc (by decide)

theorem opens_natural (n : Nat) : Opens (chars (.natural n)) := by
  obtain ⟨c, ds, hc, hblank, hchars⟩ := chars_natural n
  rw [hchars]
  refine ⟨hblank, ?_⟩
  rintro rfl
  exact absurd hc (by decide)

/-- A number is read as what the reader wants if its value is accepted. -/
theorem reads_numberAs {wanted : String} {read : Datum.Read α} {n : Nat} {a : α} (hn : n < UInt64.size)
    (h : read (.natural n) = .ok a) : Reads (numberAs wanted read) (.natural n) a where
  opens := opens_natural n
  read rest hr := by
    have hnumber : number (chars (.natural n) ++ rest) = .ok (.natural n, rest) := by
      rw [chars, Nat.toList_repr]
      exact number_toDigits hn hr
    obtain ⟨c, ds, hc, hblank, hchars⟩ := chars_natural n
    rw [hchars] at hnumber ⊢
    unfold numberAs
    rw [List.cons_append, bind_of_ok (peek_cons hblank _)]
    have hstarts : startsNumber c = true := by simp [startsNumber, hc]
    simp only [hstarts, if_true]
    rw [← List.cons_append, bind_of_ok hnumber, h]
    rfl

theorem asUInt32_ofUInt32 (n : UInt32) : (Datum.ofUInt32 n).asUInt32 = .ok n := by
  simp [Datum.ofUInt32, Datum.asUInt32, Datum.asBelow, Except.map, n.toNat_lt]

theorem asUInt64_ofUInt64 (n : UInt64) : (Datum.ofUInt64 n).asUInt64 = .ok n := by
  simp [Datum.ofUInt64, Datum.asUInt64, Datum.asBelow, Except.map, n.toNat_lt]

theorem reads_uint32 (n : UInt32) : Reads uint32 (.ofUInt32 n) n :=
  reads_numberAs (Nat.lt_trans n.toNat_lt (by decide)) (asUInt32_ofUInt32 n)

theorem reads_uint64 (n : UInt64) : Reads uint64 (.ofUInt64 n) n :=
  reads_numberAs n.toNat_lt (asUInt64_ofUInt64 n)

end HotFields.Json.Reader
