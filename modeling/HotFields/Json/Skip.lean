import HotFields.Json.Value

namespace HotFields.Json.Reader

/-- Skips the digits of a number with at least one. -/
def skipDigits : Reader Unit := do
  if (← digits).isEmpty then malformed else pure ()

def skipExponent : Reader Unit := do
  let _ ← exponentSign
  skipDigits

/-- Skips a number. It may be out of range; at the end of the text it is malformed. -/
def skipNumber : Reader Unit := do
  let _ ← (do if (← glance) = some '-' then advance)
  let ds ← digits
  if ds.isEmpty || (ds.head? = some '0' && 1 < ds.length) then malformed
  else
    match ← glance with
    | some '.' => do
      advance
      skipDigits
      match ← glance with
      | some 'e' | some 'E' => advance; skipExponent
      | _ => pure ()
    | some 'e' | some 'E' => advance; skipExponent
    | _ => pure ()

/-- Skips what follows a backslash. Any four digits are a code unit. -/
def skipEscape : Reader Unit := do
  match ← next with
  | none => truncated
  | some 'u' => do
    let _ ← fourDigits
  | some c => if (simpleEscape? c).isSome then pure () else malformed

/-- Skips a text up to its closing quotation mark. -/
def skipTextBody : List Char → Reader Unit
  | [] => truncated
  | _ :: fuel => do
    match ← next with
    | none => truncated
    | some '"' => pure ()
    | some '\\' => do
      skipEscape
      skipTextBody fuel
    | some c => if c.toNat < 0x20 then malformed else skipTextBody fuel

def skipText : Reader Unit := fun text => skipTextBody text text

/-- Skips the key of a member and its colon. -/
def skipKey : Reader Unit := do
  match ← peek with
  | none => truncated
  | some '"' => do
    advance
    skipText
    colon
  | some _ => malformed

/-- Skips a value, given how the items of a list and the members of an object are skipped. -/
def skipValue (items members : Reader Unit) : Reader Unit := do
  match ← peek with
  | none => truncated
  | some 'n' => advance; expectRest ['u', 'l', 'l']
  | some 't' => advance; expectRest ['r', 'u', 'e']
  | some 'f' => advance; expectRest ['a', 'l', 's', 'e']
  | some '"' => advance; skipText
  | some '[' => do
    advance
    match ← peek with
    | some ']' => advance
    | _ => items
  | some '{' => do
    advance
    match ← peek with
    | some '}' => advance
    | _ => members
  | some c => if startsNumber c then skipNumber else malformed

mutual

/-- Skips the items of a list and its closing bracket. -/
def skipItems : List Char → Reader Unit
  | [] => truncated
  | _ :: fuel => do
    skipValue (skipItems fuel) (skipMembers fuel)
    match ← peek with
    | none => truncated
    | some ']' => advance
    | some ',' => advance; skipItems fuel
    | some _ => malformed

/-- Skips the members of an object and its closing brace. -/
def skipMembers : List Char → Reader Unit
  | [] => truncated
  | _ :: fuel => do
    skipKey
    skipValue (skipItems fuel) (skipMembers fuel)
    match ← peek with
    | none => truncated
    | some '}' => advance
    | some ',' => advance; skipMembers fuel
    | some _ => malformed

end

/-- Skips a value of any kind and depth. A bracket is taken before every step inwards, so the text itself bounds
their number. The form of the value is checked and nothing else: numbers may be out of range, and escaped surrogates
may stand alone. -/
def skip : Reader Unit := fun text =>
  skipValue (skipItems text) (skipMembers text) text

end HotFields.Json.Reader
