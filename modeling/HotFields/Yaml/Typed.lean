import HotFields.Datum
import HotFields.Yaml.Node

namespace HotFields.Yaml

def nullForm (text : String) : Bool :=
  text = "null" || text = "Null" || text = "NULL" || text = "~"

def bool? (text : String) : Option Bool :=
  if text = "true" || text = "True" || text = "TRUE" then some true
  else if text = "false" || text = "False" || text = "FALSE" then some false
  else none

/-- The value of digits of a base. There must be one at least. -/
def digits? (base : Nat) (ds : List Char) : Option Nat :=
  if ds.isEmpty then none
  else ds.foldlM (fun n c => do
    let d ← Digit.hexValue? c
    if d < base then return n * base + d else none) 0

/-- Digits with a needless zero at the front are not a number. -/
def isZeroPadded (ds : List Char) : Bool :=
  1 < ds.length && ds.head? = some '0' && ds.all Char.isDigit

/-- An integer without its sign, in base ten or with a mark for another base. -/
def magnitude? (ds : List Char) : Option Nat :=
  match ds with
  | '0' :: 'x' :: rest => digits? 16 rest
  | '0' :: 'o' :: rest => digits? 8 rest
  | '0' :: 'b' :: rest => digits? 2 rest
  | _ => if isZeroPadded ds then none else digits? 10 ds

/-- An integer that is not negative. A plus sign is allowed. -/
def unsigned? (text : String) : Option Nat :=
  match text.toList with
  | '+' :: rest => magnitude? rest
  | ds => magnitude? ds

/-- The absolute value of an integer with a minus sign. -/
def negated? (text : String) : Option Nat :=
  match text.toList with
  | '-' :: rest => magnitude? rest
  | _ => none

/-- What an integer form stands for. -/
inductive IntegerForm where
  | value (d : Datum)
  /-- An integer that needs more than 64 bits and no more than 128. -/
  | tooLarge

/-- Reads an integer. Beyond 128 bits there are none. -/
def integer? (text : String) : Option IntegerForm :=
  match unsigned? text, negated? text with
  | some n, _ =>
    if n < UInt64.size then some (.value (.natural n))
    else if n < 1 <<< 128 then some .tooLarge
    else none
  | none, some n =>
    if n ≤ 1 <<< 63 then some (.value (.negative n))
    else if n ≤ 1 <<< 127 then some .tooLarge
    else none
  | none, none => none

/-- The exponent after its letter. -/
def exponent? (cs : List Char) : Option Int :=
  match cs with
  | '-' :: rest => (digits? 10 rest).map fun n => -(n : Int)
  | '+' :: rest => (digits? 10 rest).map fun n => (n : Int)
  | ds => (digits? 10 ds).map fun n => (n : Int)

/-- A decimal with at least one digit, and perhaps a point and an exponent. -/
def decimal? (negative : Bool) (cs : List Char) : Option Binary64 := do
  let whole := cs.takeWhile Char.isDigit
  let cs := cs.dropWhile Char.isDigit
  let (fraction, cs) := match cs with
    | '.' :: rest => (rest.takeWhile Char.isDigit, rest.dropWhile Char.isDigit)
    | _ => ([], cs)
  let significand ← digits? 10 (whole ++ fraction)
  let scale ← match cs with
    | [] => some 0
    | c :: rest => if c = 'e' || c = 'E' then exponent? rest else none
  let x := Binary64.ofDecimal negative significand (scale - fraction.length)
  if x.isInfinite then none else return x

/-- A floating point number. Decimals out of range are none. -/
def float? (text : String) : Option Binary64 :=
  if text = ".nan" || text = ".NaN" || text = ".NAN" then some .nan
  else if text = "-.inf" || text = "-.Inf" || text = "-.INF" then some (.infinite true)
  else
    match text.toList with
    | '+' :: rest => positive rest
    | '-' :: rest => decimal? true rest
    | cs => positive cs
where
  positive (cs : List Char) : Option Binary64 :=
    if cs = ".inf".toList || cs = ".Inf".toList || cs = ".INF".toList then some (.infinite false)
    else decimal? false cs

/-- The tags of the standard types. -/
def coreTag (name : String) : String := "tag:yaml.org,2002:" ++ name

/-- A plain scalar without a tag. It is null, a boolean, an integer, a floating point number or a text, whichever
its form fits first. -/
def untagged (text : String) : Option Datum :=
  if text.isEmpty || nullForm text then some .null
  else
    match bool? text, integer? text with
    | some b, _ => some (.bool b)
    | none, some (.value d) => some d
    | none, some .tooLarge => none
    | none, none =>
      if isZeroPadded (unsignedPart text.toList) then some (.text text)
      else some ((float? text).elim (.text text) .float)
where
  /-- What follows a sign. -/
  unsignedPart : List Char → List Char
    | '-' :: rest => rest
    | '+' :: rest => rest
    | cs => cs

/-- The value of a scalar. A tag of a standard type must fit; with any other tag, and between quotation
marks, a scalar is a text. -/
def typedScalar (tag : Option String) (style : ScalarStyle) (text : String) : Option Datum :=
  match tag with
  | none => if style = .plain then untagged text else some (.text text)
  | some tag =>
    if tag = coreTag "bool" then (bool? text).map .bool
    else if tag = coreTag "int" then
      match integer? text with
      | some (.value d) => some d
      | _ => none
    else if tag = coreTag "float" then (float? text).map .float
    else if tag = coreTag "null" then if nullForm text then some .null else none
    else some (.text text)

end HotFields.Yaml
