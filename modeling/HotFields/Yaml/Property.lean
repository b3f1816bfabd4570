import HotFields.Yaml.ScalarText

namespace HotFields.Yaml

/-- A directive at the start of a document. -/
inductive Directive where
  | version (major minor : Nat)
  | tag (handle meaning : String)
  deriving DecidableEq

namespace Lexer

/-- Takes the name of an anchor or an alias with its mark. -/
def anchorName : Lexer String := do
  skip 1
  let name ← run isWordChar
  guard (!name.isEmpty)
  match ← peek with
  | none => pure ()
  | some c => guard (isBlankOrBreak c || "?:,]\x7d%@`".toList.contains c)
  return String.ofList name

/-- Takes an octet in hexadecimal digits after a percent sign. -/
def escapedOctet : Lexer Nat := do
  let _ ← one (· = '%')
  hexDigits 2 0

/-- The number of octets of a character, by the first one. -/
def octetCount (first : Nat) : Option Nat :=
  if first < 0x80 then some 1
  else if first < 0xC0 then none
  else if first < 0xE0 then some 2
  else if first < 0xF0 then some 3
  else if first < 0xF8 then some 4
  else none

/-- Takes the octets of one character. -/
def escapedOctets : Lexer (List UInt8) := do
  let first ← escapedOctet
  let count ← (octetCount first : Option Nat)
  let others ← (List.replicate (count - 1) ()).mapM fun _ => do
    let octet ← escapedOctet
    guard (0x80 ≤ octet && octet < 0xC0)
    return octet
  return (first :: others).map Nat.toUInt8

/-- Characters of a tag. Some marks may stand only in a tag that is written in full. -/
def isTagChar (full : Bool) (c : Char) : Bool :=
  isWordChar c || ";/?:@&=+$.%!~*'()".toList.contains c || (full && ",[]".toList.contains c)

/-- The text of octets. Octets that are no text stand for a character that no known tag has. -/
def octetText (octets : List UInt8) : String :=
  (String.fromUTF8? ⟨octets.toArray⟩).getD "\ufffd"

/-- Takes the characters of a tag after those taken as a handle. -/
def tagChars (full : Bool) (head : List Char) : Lexer String := do
  let octets ← iterate (fun (done : List UInt8) => do
    match ← peek with
    | some c =>
      if isTagChar full c then
        if c = '%' then return (done ++ (← escapedOctets), false)
        else do
          skip 1
          return (done ++ [c.toNat.toUInt8], false)
      else return (done, true)
    | none => return (done, true)) []
  return octetText (head.map (fun c => c.toNat.toUInt8) ++ octets)

/-- Takes an exclamation mark, the word after it, and a second exclamation mark if there is one. -/
def tagHandle : Lexer (List Char) := do
  let mark ← one (· = '!')
  let word ← run isWordChar
  if (← peek) = some '!' then
    skip 1
    return mark :: word ++ ['!']
  else return mark :: word

/-- Takes a tag: its handle and its suffix. A tag that is complete in itself has an empty handle. -/
def tag (inFlow : Bool) : Lexer (String × String) := do
  let parts ←
    if (← peekAt 1) = some '<' then do
      skip 2
      let suffix ← tagChars true []
      guard (!suffix.isEmpty)
      let _ ← one (· = '>')
      pure ("", suffix)
    else do
      let handle ← tagHandle
      if 1 < handle.length && handle.getLast? = some '!' then
        let suffix ← tagChars false []
        guard (!suffix.isEmpty)
        pure (String.ofList handle, suffix)
      else
        let suffix ← tagChars false handle.tail
        pure (if suffix.isEmpty then ("", "!") else ("!", suffix))
  match ← peek with
  | none => pure ()
  | some c => guard (isBlankOrBreak c || (inFlow && c = ','))
  return parts

/-- Takes a number of at most nine digits. -/
def versionNumber : Lexer Nat := do
  let ds ← run Char.isDigit
  guard (!ds.isEmpty && ds.length ≤ 9)
  return Digit.valueOf ds

def versionDirective : Lexer Directive := do
  skipBlanks
  let major ← versionNumber
  let _ ← one (· = '.')
  return .version major (← versionNumber)

def tagDirective : Lexer Directive := do
  skipBlanks
  let handle ← tagHandle
  guard (handle = ['!'] || handle.getLast? = some '!')
  let _ ← one isBlank
  skipBlanks
  let meaning ← tagChars true []
  guard (!meaning.isEmpty)
  guard (← endsWordAt 0)
  return .tag (String.ofList handle) meaning

/-- Takes a directive and its line. -/
def directive : Lexer Directive := do
  skip 1
  let name ← run isWordChar
  guard (← endsWordAt 0)
  let d ←
    if name = "YAML".toList then versionDirective
    else if name = "TAG".toList then tagDirective
    else failure
  endLine
  return d

end Lexer

end HotFields.Yaml
