import HotFields.Datum

namespace HotFields.Json

/-- How a character is written in a text. -/
def escapedChar (c : Char) : List Char :=
  if c = '"' then ['\\', '"']
  else if c = '\\' then ['\\', '\\']
  else if c = '\x08' then ['\\', 'b']
  else if c = '\x0c' then ['\\', 'f']
  else if c = '\n' then ['\\', 'n']
  else if c = '\r' then ['\\', 'r']
  else if c = '\t' then ['\\', 't']
  else if c.toNat < 0x20 then
    ['\\', 'u', '0', '0', Nat.digitChar (c.toNat / 16), Nat.digitChar (c.toNat % 16)]
  else [c]

def textChars (s : String) : List Char :=
  '"' :: s.toList.flatMap escapedChar ++ ['"']

/-- Floating point numbers are written out from `1e-5` up to `1e15`. -/
def floatLayout : DecimalLayout where
  positional leading := -5 ≤ leading && leading ≤ 15

mutual

/-- The characters of a value. -/
def chars : Datum → List Char
  | .null => ['n', 'u', 'l', 'l']
  | .bool true => ['t', 'r', 'u', 'e']
  | .bool false => ['f', 'a', 'l', 's', 'e']
  | .natural n => (Nat.repr n).toList
  | .negative n => '-' :: (Nat.repr n).toList
  | .float x => (floatLayout.text x).toList
  | .text s => textChars s
  | .list items => '[' :: itemChars items ++ [']']
  | .record entries => '{' :: entryChars entries ++ ['}']

/-- The characters of list items. -/
def itemChars : List Datum → List Char
  | [] => []
  | [d] => chars d
  | d :: rest => chars d ++ ',' :: itemChars rest

/-- The characters of the members of an object. -/
def entryChars : List (Datum × Datum) → List Char
  | [] => []
  | [(key, value)] => keyChars key ++ ':' :: chars value
  | (key, value) :: rest => keyChars key ++ ':' :: chars value ++ ',' :: entryChars rest

/-- The characters of a key. -/
def keyChars : Datum → List Char
  | .text s => textChars s
  | d => '"' :: chars d ++ ['"']

end

/-- The text of a value, without blanks. Keys that are not texts are written as their text. -/
def render (d : Datum) : String :=
  String.ofList (chars d)

end HotFields.Json
