import HotFields.Json.Reader
import HotFields.Text.Digit

namespace HotFields.Json.Reader

/-- Takes four hexadecimal digits. They are four bytes of the text: it is truncated only if fewer
bytes are left. -/
def fourDigits : Reader Nat
  | a :: b :: c :: d :: rest =>
    match Digit.hexValue? a, Digit.hexValue? b, Digit.hexValue? c, Digit.hexValue? d with
    | some a, some b, some c, some d => .ok (((a * 16 + b) * 16 + c) * 16 + d, rest)
    | _, _, _, _ => .error .malformed
  | few => if few.foldl (fun n c => n + c.utf8Size) 0 < 4 then .error .truncated else .error .malformed

/-- The character that a one letter escape stands for. -/
def simpleEscape? (c : Char) : Option Char :=
  if c = '"' then some '"'
  else if c = '\\' then some '\\'
  else if c = '/' then some '/'
  else if c = 'b' then some '\x08'
  else if c = 'f' then some '\x0c'
  else if c = 'n' then some '\n'
  else if c = 'r' then some '\r'
  else if c = 't' then some '\t'
  else none

/-- Takes a character that must be there. -/
def required (wanted : Char) : Reader Unit := do
  match ← next with
  | none => truncated
  | some c => if c = wanted then pure () else malformed

/-- Takes the digits of an escaped code unit. A high surrogate must be followed by a low one. -/
def unicodeEscape : Reader Char := do
  let high ← fourDigits
  if 0xDC00 ≤ high && high ≤ 0xDFFF then malformed
  else if 0xD800 ≤ high && high ≤ 0xDBFF then do
    required '\\'
    required 'u'
    let low ← fourDigits
    if 0xDC00 ≤ low && low ≤ 0xDFFF then
      pure (Char.ofNat (0x10000 + (high - 0xD800) * 0x400 + (low - 0xDC00)))
    else malformed
  else pure (Char.ofNat high)

/-- Takes what follows a backslash. -/
def escape : Reader Char := do
  match ← next with
  | none => truncated
  | some 'u' => unicodeEscape
  | some c =>
    match simpleEscape? c with
    | some c => pure c
    | none => malformed

/-- Takes the characters of a text up to its closing quotation mark. Every step takes one at least, so the
text itself bounds their number. -/
def textBody : List Char → Reader (List Char)
  | [] => truncated
  | _ :: fuel => do
    match ← next with
    | none => truncated
    | some '"' => pure []
    | some '\\' => do
      let c ← escape
      return c :: (← textBody fuel)
    | some c => if c.toNat < 0x20 then malformed else return c :: (← textBody fuel)

/-- Takes a text after its opening quotation mark. -/
def textAfterQuote : Reader String := fun text =>
  (String.ofList <$> textBody text) text

end HotFields.Json.Reader
