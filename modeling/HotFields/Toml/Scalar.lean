import HotFields.Toml.Reader
import HotFields.Toml.Table
import HotFields.Text.Digit

namespace HotFields.Toml.Reader

/-- Digits, with underscores between them left out, and what follows. -/
def grouped (p : Char → Bool) : List Char → List Char × List Char
  | [] => ([], [])
  | [c] => if p c then ([c], []) else ([], [c])
  | '_' :: c :: rest =>
    if p c then
      let (digits, rest) := grouped p rest
      (c :: digits, rest)
    else ([], '_' :: c :: rest)
  | c :: rest =>
    if p c then
      let (digits, rest) := grouped p rest
      (c :: digits, rest)
    else ([], c :: rest)

/-- Takes digits, the first of which is not an underscore. -/
def digits (p : Char → Bool) : Reader (List Char) := do
  let first ← one p
  return first :: (← fun text => some (grouped p text))

def valueOf (base : Nat) (ds : List Char) : Nat :=
  ds.foldl (fun n c => n * base + (Digit.hexValue? c).getD 0) 0

/-- Takes a sign; true for a minus. -/
def sign : Reader Bool := do
  return (← optional (one fun c => c = '+' || c = '-')) = some '-'

/-- Takes digits without a leading zero. -/
def plainDigits : Reader (List Char) := do
  if (← peek) = some '0' then return [← next] else digits Char.isDigit

/-- The integers have 64 bits. -/
def integerOf (n : Int) : Reader Value :=
  if -0x8000000000000000 ≤ n && n < 0x8000000000000000 then pure (.integer n) else failure

def integer : Reader Value := fun text =>
  match text with
  | '0' :: 'x' :: rest => based 16 (fun c => (Digit.hexValue? c).isSome) rest
  | '0' :: 'o' :: rest => based 8 (fun c => '0' ≤ c && c ≤ '7') rest
  | '0' :: 'b' :: rest => based 2 (fun c => c = '0' || c = '1') rest
  | _ => decimal text
where
  based (base : Nat) (p : Char → Bool) : Reader Value := do
    integerOf (valueOf base (← digits p))
  decimal : Reader Value := do
    let negative ← sign
    let n := valueOf 10 (← plainDigits)
    integerOf (if negative then -(n : Int) else n)

/-- Takes an exponent with its letter. -/
def exponent : Reader Int := do
  let _ ← one fun c => c = 'e' || c = 'E'
  let negative ← sign
  let n := valueOf 10 (← digits Char.isDigit)
  return if negative then -(n : Int) else n

def fraction : Reader (List Char) := do
  expect ['.']
  digits Char.isDigit

/-- Takes a number with a fraction or an exponent. It must not be too large; there is no limit on the
negative side. -/
def decimalFloat : Reader Value := do
  let negative ← sign
  let whole ← plainDigits
  let (part, scale) ←
    (do return ([], ← exponent)) <|>
    (do return (← fraction, (← optional exponent).getD 0))
  let x := Binary64.ofDecimal negative (valueOf 10 (whole ++ part)) (scale - part.length)
  if x = .infinite false then failure else return .float x

def specialFloat : Reader Value := do
  let negative ← sign
  (do expect ['i', 'n', 'f']; return .float (.infinite negative)) <|>
  (do expect ['n', 'a', 'n']; return .float .nan)

/-- Takes a number with a fixed count of digits that lies in a range. -/
def fixedNumber (count least most : Nat) : Reader Nat := do
  let ds ← (List.replicate count ()).mapM fun _ => one Char.isDigit
  let n := valueOf 10 ds
  if least ≤ n && n ≤ most then return n else failure

def daysIn (year month : Nat) : Nat :=
  if month = 2 then
    if year % 4 = 0 && (year % 100 ≠ 0 || year % 400 = 0) then 29 else 28
  else if month = 4 || month = 6 || month = 9 || month = 11 then 30
  else 31

def date : Reader Unit := do
  let year ← fixedNumber 4 0 9999
  expect ['-']
  let month ← fixedNumber 2 1 12
  expect ['-']
  let _ ← fixedNumber 2 1 (daysIn year month)

def time : Reader Unit := do
  let _ ← fixedNumber 2 0 23
  expect [':']
  let _ ← fixedNumber 2 0 59
  expect [':']
  let _ ← fixedNumber 2 0 60
  let _ ← optional (do
    expect ['.']
    let _ ← one Char.isDigit
    run Char.isDigit)

/-- Takes the distance from universal time. -/
def offset : Reader Unit :=
  (do let _ ← one fun c => c = 'Z' || c = 'z') <|>
  (do
    let _ ← one fun c => c = '+' || c = '-'
    let _ ← fixedNumber 2 0 23
    expect [':']
    let _ ← fixedNumber 2 0 59)

/-- Takes a date, a time, or both. They are checked, and only that there is one is kept. -/
def moment : Reader Value := do
  (do
    date
    let _ ← optional (do
      let _ ← one fun c => c = 'T' || c = 't' || c = ' '
      time
      optional offset)) <|> time
  return .moment

end HotFields.Toml.Reader
