namespace HotFields

/-- A number of the 64 bit binary format. A finite number is a significand times a power of two; the exponent is
never below that of the smallest positive number. -/
inductive Binary64 where
  | finite (negative : Bool) (significand : Nat) (exponent : Int)
  | infinite (negative : Bool)
  | nan
  deriving DecidableEq

namespace Binary64

/-- The exponent of the smallest positive number. -/
def leastExponent : Int := -1074

/-- The exponent of the largest finite number. -/
def greatestExponent : Int := 971

/-- A quotient rounded to the nearest integer; a half goes to the even neighbour. -/
def roundedQuotient (num den : Nat) : Nat :=
  let q := num / den
  let r := num % den
  if 2 * r > den || (2 * r = den && q % 2 = 1) then q + 1 else q

/-- The exponent of the highest bit of a positive quotient. -/
def quotientLog2 (num den : Nat) : Int :=
  let k : Int := (num.log2 : Int) - (den.log2 : Int)
  let reached :=
    if 0 ≤ k then den <<< k.toNat ≤ num else den ≤ num <<< (-k).toNat
  if reached then k else k - 1

/-- The number nearest to a quotient; a half goes to the even significand. -/
def ofQuotient (negative : Bool) (num den : Nat) : Binary64 :=
  if num = 0 then .finite negative 0 0
  else
    let e := max (quotientLog2 num den - 52) leastExponent
    let m :=
      if 0 ≤ e then roundedQuotient num (den <<< e.toNat)
      else roundedQuotient (num <<< (-e).toNat) den
    let (m, e) := if m = 1 <<< 53 then (1 <<< 52, e + 1) else (m, e)
    if greatestExponent < e then .infinite negative else .finite negative m e

def ofNat (n : Nat) : Binary64 :=
  ofQuotient false n 1

def isZero : Binary64 → Bool
  | .finite _ m _ => m = 0
  | _ => false

def isInfinite : Binary64 → Bool
  | .infinite _ => true
  | _ => false

/-- The absolute value of a finite number as a quotient. -/
def magnitude (significand : Nat) (exponent : Int) : Nat × Nat :=
  if 0 ≤ exponent then (significand <<< exponent.toNat, 1)
  else (significand, 1 <<< (-exponent).toNat)

def neg : Binary64 → Binary64
  | .finite s m e => .finite (!s) m e
  | .infinite s => .infinite (!s)
  | .nan => .nan

/-- A finite number times a power of ten that is itself rounded first. -/
def timesPowerOfTen (x : Binary64) (k : Nat) : Binary64 :=
  match x, ofNat (Nat.pow 10 k) with
  | .finite s m e, .finite _ m' e' =>
    let (num, den) := magnitude m e
    let (num', den') := magnitude m' e'
    ofQuotient s (num * num') (den * den')
  | _, y => y

/-- A finite number divided by a power of ten that is itself rounded first. -/
def overPowerOfTen (x : Binary64) (k : Nat) : Binary64 :=
  match x, ofNat (Nat.pow 10 k) with
  | .finite s m e, .finite _ m' e' =>
    let (num, den) := magnitude m e
    let (num', den') := magnitude m' e'
    ofQuotient s (num * den') (den * num')
  | x, _ => x

/-- The number nearest to a decimal, for any exponent. Decimals beyond the range become infinite, and
those far below the smallest number become zero, without computing the power. -/
def ofDecimal (negative : Bool) (digits : Nat) (exponent : Int) : Binary64 :=
  let size : Int := (Nat.toDigits 10 digits).length
  if digits = 0 then .finite negative 0 0
  else if 400 < size + exponent then .infinite negative
  else if size + exponent < -400 then .finite negative 0 0
  else if 0 ≤ exponent then ofQuotient negative (digits * Nat.pow 10 exponent.toNat) 1
  else ofQuotient negative digits (Nat.pow 10 (-exponent).toNat)

end Binary64

end HotFields
