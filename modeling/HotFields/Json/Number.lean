import HotFields.Json.Reader
import HotFields.Text.Digit

namespace HotFields.Json.Reader

/-- A number as it is read: a 64 bit significand and a power of ten. -/
structure Scaled where
  significand : Nat
  exponent : Int
  full : Bool := false

namespace Scaled

/-- Takes one more digit before the point. Digits that no longer fit only raise the exponent. -/
def pushInteger (s : Scaled) (c : Char) : Scaled :=
  let grown := s.significand * 10 + Digit.value c
  if s.full || UInt64.size ≤ grown then { s with exponent := s.exponent + 1, full := true }
  else { s with significand := grown }

/-- Takes one more digit after the point. Digits that no longer fit are dropped. -/
def pushFraction (s : Scaled) (c : Char) : Scaled :=
  let grown := s.significand * 10 + Digit.value c
  if s.full || UInt64.size ≤ grown then { s with full := true }
  else { s with significand := grown, exponent := s.exponent - 1 }

/-- The floating point number of a scaled one, in steps that are each rounded; none if it is out of
range. Four steps take every significand to zero. -/
def scale : Nat → Binary64 → Int → Option Binary64
  | 0, x, _ => some x
  | fuel + 1, x, exponent =>
    if exponent.natAbs ≤ 308 then
      if 0 ≤ exponent then
        let y := x.timesPowerOfTen exponent.toNat
        if y.isInfinite then none else some y
      else some (x.overPowerOfTen exponent.natAbs)
    else if x.isZero then some x
    else if 0 ≤ exponent then none
    else scale fuel (x.overPowerOfTen 308) (exponent + 308)

/-- The floating point value. -/
def toFloat (negative : Bool) (s : Scaled) : Reader Datum :=
  match scale 4 (Binary64.ofNat s.significand) s.exponent with
  | none => malformed
  | some x => pure (.float (if negative then x.neg else x))

end Scaled

/-- Takes all digits at the front. -/
def digits : Reader (List Char) := fun text =>
  .ok (text.takeWhile Char.isDigit, text.dropWhile Char.isDigit)

/-- Shows the next character without dropping blanks. -/
def glance : Reader (Option Char) := fun text => .ok (text.head?, text)

/-- Takes a sign, if there is one; true for a minus. -/
def exponentSign : Reader Bool := do
  match ← glance with
  | some '+' => advance; pure false
  | some '-' => advance; pure true
  | _ => pure false

/-- The largest exponent that is computed with. -/
def exponentLimit : Nat := 0x7FFFFFFF

/-- Takes the exponent part after its letter. An exponent beyond all bounds leaves zero, or is out of
range. -/
def exponentPart (negative : Bool) (s : Scaled) : Reader Datum := do
  let down ← exponentSign
  match ← glance with
  | none => truncated
  | some c =>
    if c.isDigit then do
      let ds ← digits
      let n := Digit.valueOf ds
      if exponentLimit < n then
        if s.significand ≠ 0 && !down then malformed
        else pure (.float (.finite negative 0 0))
      else Scaled.toFloat negative { s with exponent := if down then s.exponent - n else s.exponent + n }
    else malformed

/-- Takes the fraction after the point. -/
def fractionPart (negative : Bool) (s : Scaled) : Reader Datum := do
  let ds ← digits
  if ds.isEmpty then
    match ← glance with
    | none => truncated
    | some _ => malformed
  else
    let s := ds.foldl Scaled.pushFraction { s with full := false }
    match ← glance with
    | some 'e' | some 'E' => advance; exponentPart negative s
    | _ => s.toFloat negative

/-- Takes what follows the digits before the point. A minus sign before zero or before a number that
does not fit makes a floating point number. -/
def numberTail (negative : Bool) (s : Scaled) : Reader Datum := do
  match ← glance with
  | some '.' => advance; fractionPart negative s
  | some 'e' | some 'E' => advance; exponentPart negative s
  | _ =>
    if s.full then s.toFloat negative
    else if !negative then pure (.natural s.significand)
    else if s.significand = 0 || 1 <<< 63 < s.significand then s.toFloat negative
    else pure (.negative s.significand)

/-- Takes a number after its sign. -/
def unsignedNumber (negative : Bool) : Reader Datum := do
  match ← glance with
  | none => truncated
  | some c =>
    if c.isDigit then do
      let ds ← digits
      if c = '0' && 1 < ds.length then malformed
      else numberTail negative (ds.foldl Scaled.pushInteger ⟨0, 0, false⟩)
    else malformed

/-- Takes a number that starts with a digit or a minus sign. An integer that 64 bits hold is kept exactly. -/
def number : Reader Datum := do
  match ← glance with
  | some '-' => advance; unsignedNumber true
  | _ => unsignedNumber false

/-- Whether a number can start with a character. -/
def startsNumber (c : Char) : Bool := c = '-' || c.isDigit

end HotFields.Json.Reader
