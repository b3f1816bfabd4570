namespace HotFields.Toml

/-- Takes a value from the front of a text and leaves the rest. There is no answer where the text is not TOML. -/
abbrev Reader := StateT (List Char) Option

namespace Reader

variable {α : Type}

/-- Shows the next character. -/
def peek : Reader (Option Char) := fun text => some (text.head?, text)

/-- Takes the next character. -/
def next : Reader Char
  | [] => none
  | c :: rest => some (c, rest)

/-- Takes a character of a class. -/
def one (p : Char → Bool) : Reader Char := do
  let c ← next
  if p c then return c else failure

def expect (wanted : List Char) : Reader Unit :=
  wanted.forM fun c => do
    let _ ← one (· = c)

/-- Takes all characters of a class at the front. -/
def run (p : Char → Bool) : Reader (List Char) := fun text =>
  some (text.takeWhile p, text.dropWhile p)

/-- Takes a value if it is there. -/
def optional (value : Reader α) : Reader (Option α) :=
  some <$> value <|> pure none

/-- Repeats a step for as long as it succeeds. Every step takes something, so the text itself bounds their
number. -/
def repeatedly (step : α → Reader α) (start : α) : Reader α := fun text =>
  loop step text start text
where
  loop (step : α → Reader α) : List Char → α → Reader α
    | [], a => pure a
    | _ :: fuel, a => fun text =>
      match step a text with
      | none => some (a, text)
      | some (b, rest) => loop step fuel b rest

def isBlank (c : Char) : Bool := c = ' ' || c = '\t'

def blanks : Reader Unit := do
  let _ ← run isBlank

/-- Not a control character, or a tab. -/
def isPrintable (c : Char) : Bool :=
  c = '\t' || (' ' ≤ c && c ≠ '\x7f')

def newline : Reader Unit := expect ['\n'] <|> expect ['\r', '\n']

def comment : Reader Unit := do
  expect ['#']
  let _ ← run isPrintable

/-- The end of a line, or of the text. -/
def lineEnd : Reader Unit := fun text =>
  if text.isEmpty then some ((), text) else newline text

/-- What may follow on a line that is otherwise complete. -/
def lineRest : Reader Unit := do
  blanks
  let _ ← optional comment
  lineEnd

/-- Blanks, line ends and comments between the items of an array. -/
def gap : Reader Unit :=
  repeatedly (fun _ => (do let _ ← one isBlank) <|> newline <|> comment) ()

end Reader

end HotFields.Toml
