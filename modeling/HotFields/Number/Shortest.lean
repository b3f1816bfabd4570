import HotFields.Number.Binary64

namespace HotFields

/-- Digits, as a number without trailing zeros, times a power of ten. -/
structure Decimal where
  digits : Nat
  exponent : Int
  deriving DecidableEq

namespace Decimal

/-- Drops trailing zeros. The fuel bounds the number of digits. -/
def trim : Nat → Decimal → Decimal
  | 0, d => d
  | fuel + 1, d =>
    if d.digits ≠ 0 && d.digits % 10 = 0 then trim fuel ⟨d.digits / 10, d.exponent + 1⟩ else d

end Decimal

namespace Binary64

/-- Compares a quotient with a decimal: the two sides over one denominator. -/
def crossed (num den : Nat) (d : Decimal) : Nat × Nat :=
  if 0 ≤ d.exponent then (num, d.digits * Nat.pow 10 d.exponent.toNat * den)
  else (num * Nat.pow 10 (-d.exponent).toNat, d.digits * den)

/-- Whether a decimal rounds to a positive finite number. The ends of the interval of such decimals
belong to it if the significand is even. Below a power of two the lower half interval is half as long. -/
def readsBack (m : Nat) (e : Int) (d : Decimal) : Bool :=
  let (num, den) := magnitude m e
  let lower := if m = 1 <<< 52 && leastExponent < e then (4 * m - 1, 4 * m) else (2 * m - 1, 2 * m)
  let upper := (2 * m + 1, 2 * m)
  let (low, mid) := crossed (num * lower.1) (den * lower.2) d
  let (high, mid') := crossed (num * upper.1) (den * upper.2) d
  if m % 2 = 0 then low ≤ mid && mid' ≤ high else low < mid && mid' < high

/-- The number of digits before the point of a positive quotient, counted below zero for leading zeros
after the point. The fuel bounds the search from an estimate. -/
def decimalSize (num den : Nat) : Int :=
  let estimate : Int := (num.log2 : Int) - (den.log2 : Int)
  let start := estimate * 30103 / 100000
  let candidates := [start - 1, start, start + 1, start + 2]
  let below (k : Int) : Bool :=
    if 0 ≤ k then num < Nat.pow 10 k.toNat * den else num * Nat.pow 10 (-k).toNat < den
  (candidates.find? below).getD (start + 2)

/-- The two neighbours of a quotient on the grid of a power of ten, the nearer first; of two equally
near ones the even one. -/
def gridNeighbours (num den : Nat) (k : Int) : List Decimal :=
  let (n, d) := if 0 ≤ k then (num, den * Nat.pow 10 k.toNat) else (num * Nat.pow 10 (-k).toNat, den)
  let q := n / d
  let r := n % d
  if 2 * r < d || (2 * r = d && q % 2 = 0) then [⟨q, k⟩, ⟨q + 1, k⟩] else [⟨q + 1, k⟩, ⟨q, k⟩]

/-- The shortest decimal that reads back as a positive finite number, and of those the nearest. -/
def shortest (m : Nat) (e : Int) : Decimal :=
  let (num, den) := magnitude m e
  let size := decimalSize num den
  let hit := (List.range 17).findSome? fun n =>
    (gridNeighbours num den (size - (n + 1 : Nat))).find? (readsBack m e)
  (hit.getD ⟨0, 0⟩).trim 20

end Binary64

/-- A way to write decimals: for which exponents of the first digit all digits are written out. -/
structure DecimalLayout where
  positional : Int → Bool

namespace DecimalLayout

def zeros (n : Nat) : List Char := List.replicate n '0'

/-- All digits written out, with a point and at least one digit after it. -/
def writtenOut (digits : List Char) (exponent : Int) : List Char :=
  let point := (digits.length : Int) + exponent
  if 0 ≤ exponent then digits ++ zeros exponent.toNat ++ ['.', '0']
  else if 0 < point then digits.take point.toNat ++ ['.'] ++ digits.drop point.toNat
  else ['0', '.'] ++ zeros (-point).toNat ++ digits

/-- One digit before the point and the exponent of that digit with its sign. -/
def scientific (digits : List Char) (leading : Int) : List Char :=
  let fraction := if digits.length ≤ 1 then [] else '.' :: digits.drop 1
  let sign := if 0 ≤ leading then '+' else '-'
  digits.take 1 ++ fraction ++ ['e', sign] ++ (Nat.repr leading.natAbs).toList

/-- The text of a floating point number. -/
def text (layout : DecimalLayout) : Binary64 → String
  | .nan => "NaN"
  | .infinite negative => if negative then "-inf" else "inf"
  | .finite negative m e =>
    let unsigned :=
      if m = 0 then ['0', '.', '0']
      else
        let d := Binary64.shortest m e
        let digits := (Nat.repr d.digits).toList
        let leading := (digits.length : Int) + d.exponent - 1
        if layout.positional leading then writtenOut digits d.exponent
        else scientific digits leading
    String.ofList (if negative then '-' :: unsigned else unsigned)

end DecimalLayout

end HotFields
