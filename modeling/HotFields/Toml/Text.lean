import HotFields.Toml.Reader
import HotFields.Text.Digit

namespace HotFields.Toml.Reader

/-- Takes a number of hexadecimal digits. -/
def hexDigits : Nat → Nat → Reader Nat
  | 0, value => pure value
  | count + 1, value => do
    let digit ← (Digit.hexValue? (← next) : Option Nat)
    hexDigits count (value * 16 + digit)

/-- The character with a code. -/
def charOf (code : Nat) : Reader Char :=
  if code.isValidChar then pure (Char.ofNat code) else failure

/-- Takes an escaped character with its backslash. -/
def escaped : Reader Char := do
  expect ['\\']
  match ← next with
  | 'b' => pure '\x08'
  | 't' => pure '\t'
  | 'n' => pure '\n'
  | 'f' => pure '\x0c'
  | 'r' => pure '\r'
  | '"' => pure '"'
  | '\\' => pure '\\'
  | 'u' => do charOf (← hexDigits 4 0)
  | 'U' => do charOf (← hexDigits 8 0)
  | _ => failure

/-- A backslash at the end of a line drops it, the line end and all blank space that follows. -/
def escapedLineEnd : Reader Unit := do
  expect ['\\']
  blanks
  newline
  repeatedly (fun _ => (do let _ ← one isBlank) <|> newline) ()

/-- Collects characters. They are kept in reverse. -/
def collect (step : List Char → Reader (List Char)) : Reader (List Char) := do
  return (← repeatedly step []).reverse

/-- Takes a text on one line between quotation marks. -/
def basicText : Reader String := do
  expect ['"']
  let body ← collect fun done =>
    (do return (← one fun c => isPrintable c && c ≠ '"' && c ≠ '\\') :: done) <|>
    (do return (← escaped) :: done)
  expect ['"']
  return String.ofList body

/-- Takes a text on one line between apostrophes. -/
def literalText : Reader String := do
  expect ['\'']
  let body ← run fun c => isPrintable c && c ≠ '\''
  expect ['\'']
  return String.ofList body

/-- Takes one or two marks that do not belong to the three at the end of a text. -/
def loneMarks (mark : Char) (done : List Char) : Reader (List Char) := do
  let marks ← run (· = mark)
  if marks.length < 3 && !marks.isEmpty then return marks ++ done else failure

/-- Takes the end of a text on several lines: three marks, and before them up to two that belong to the
text. -/
def closingMarks (mark : Char) : Reader (List Char) := fun text =>
  let count := (text.takeWhile (· = mark)).length
  if count < 3 then none
  else some (List.replicate (min (count - 3) 2) mark, text.drop (min count 5))

/-- Takes a text on several lines with three marks at both ends. A line end right after the opening
marks is dropped; all others become line feeds. -/
def multilineText (mark : Char) (piece : List Char → Reader (List Char)) : Reader String := do
  expect [mark, mark, mark]
  let _ ← optional newline
  let body ← collect fun done =>
    piece done <|> (do newline; return '\n' :: done) <|> loneMarks mark done
  return String.ofList (body ++ (← closingMarks mark))

def multilineBasicText : Reader String :=
  multilineText '"' fun done =>
    (do return (← one fun c => isPrintable c && c ≠ '"' && c ≠ '\\') :: done) <|>
    (do escapedLineEnd; return done) <|>
    (do return (← escaped) :: done)

def multilineLiteralText : Reader String :=
  multilineText '\'' fun done => do
    return (← one fun c => isPrintable c && c ≠ '\'') :: done

/-- Whether a text starts with three marks. -/
def startsMultiline (mark : Char) : Reader Bool := fun text =>
  some ([mark, mark, mark].isPrefixOf text, text)

def text : Reader String := do
  match ← peek with
  | some '"' => if ← startsMultiline '"' then multilineBasicText else basicText
  | some '\'' => if ← startsMultiline '\'' then multilineLiteralText else literalText
  | _ => failure

end HotFields.Toml.Reader
