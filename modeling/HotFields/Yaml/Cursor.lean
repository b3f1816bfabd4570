import HotFields.Text.Digit

namespace HotFields.Yaml

/-- Characters that a text may hold at all. -/
def isAllowed (c : Char) : Bool :=
  c = '\t' || c = '\n' || c = '\r' || (' ' ≤ c && c ≤ '~') || c = '\u0085' ||
    ('\u00a0' ≤ c && c ≤ '\ufffd') || 0x10000 ≤ c.toNat

def isBlank (c : Char) : Bool := c = ' ' || c = '\t'

def isBreak (c : Char) : Bool :=
  c = '\n' || c = '\r' || c = '\u0085' || c = '\u2028' || c = '\u2029'

def isBlankOrBreak (c : Char) : Bool := isBlank c || isBreak c

/-- Whether a word ends here: at a blank, at the end of a line or of the text. -/
def endsWord : Option Char → Bool
  | none => true
  | some c => isBlankOrBreak c

/-- Letters, digits, underscore and hyphen. -/
def isWordChar (c : Char) : Bool :=
  c.isAlphanum || c = '_' || c = '-'

/-- What a line end contributes to a text. Separators of lines and paragraphs are kept. -/
def breakText (c : Char) : List Char :=
  if c = '\u2028' || c = '\u2029' then [c] else ['\n']

/-- The rest of a text and where it starts. Lines and columns are counted, because indentation and the reach of keys
depend on them. -/
structure Cursor where
  rest : List Char
  index : Nat := 0
  line : Nat := 0
  column : Nat := 0

namespace Cursor

/-- Moves on by characters of one line. -/
def skip (c : Cursor) (n : Nat) : Cursor :=
  { c with rest := c.rest.drop n, index := c.index + n, column := c.column + n }

/-- Moves behind a line end. A carriage return with a line feed is one. -/
def skipBreak (c : Cursor) : Cursor :=
  match c.rest with
  | '\r' :: '\n' :: rest => ⟨rest, c.index + 2, c.line + 1, 0⟩
  | _ :: rest => ⟨rest, c.index + 1, c.line + 1, 0⟩
  | [] => c

/-- Whether three equal marks stand at the start of a line as a word. -/
def atMarker (c : Cursor) (mark : Char) : Bool :=
  c.column = 0 && [mark, mark, mark].isPrefixOf c.rest && endsWord c.rest[3]?

/-- Whether a document starts or ends here. -/
def atDocumentMarker (c : Cursor) : Bool :=
  c.atMarker '-' || c.atMarker '.'

end Cursor

/-- Moves a cursor and takes a value. -/
abbrev Lexer := StateT Cursor Option

namespace Lexer

variable {α : Type}

/-- The character some places ahead. -/
def peekAt (n : Nat) : Lexer (Option Char) := fun c => some (c.rest[n]?, c)

def peek : Lexer (Option Char) := peekAt 0

def skip (n : Nat) : Lexer Unit := fun c => some ((), c.skip n)

/-- Takes a character of a class. -/
def one (p : Char → Bool) : Lexer Char := do
  match ← peek with
  | some c => if p c then do skip 1; return c else failure
  | none => failure

/-- Takes all characters of a class at the front. The class has no line ends. -/
def run (p : Char → Bool) : Lexer (List Char) := fun c =>
  let taken := c.rest.takeWhile p
  some (taken, c.skip taken.length)

def skipBlanks : Lexer Unit := do
  let _ ← run isBlank

/-- Takes the rest of the line. -/
def restOfLine : Lexer (List Char) := run fun c => !isBreak c

/-- Drops a comment. -/
def skipComment : Lexer Unit := do
  if (← peek) = some '#' then
    let _ ← restOfLine

/-- Takes a line end, if there is one, and gives what it contributes. -/
def takeBreak : Lexer (List Char) := fun c =>
  match c.rest with
  | d :: _ => if isBreak d then some (breakText d, c.skipBreak) else some ([], c)
  | [] => some ([], c)

/-- Drops blanks and a comment; the line must end then. -/
def endLine : Lexer Unit := do
  skipBlanks
  skipComment
  match ← peek with
  | none => pure ()
  | some c => do
    guard (isBreak c)
    let _ ← takeBreak

/-- Whether a word ends some places ahead. -/
def endsWordAt (n : Nat) : Lexer Bool := do
  return endsWord (← peekAt n)

/-- Repeats a step until it says that it is done. Every other step takes something, so the rest of the text
bounds their number. -/
def iterate (step : α → Lexer (α × Bool)) (start : α) : Lexer α := fun c =>
  loop step c.rest start c
where
  loop (step : α → Lexer (α × Bool)) : List Char → α → Lexer α
    | [], a => do
      let (b, done) ← step a
      if done then return b else failure
    | _ :: fuel, a => do
      let (b, done) ← step a
      if done then return b else loop step fuel b

end Lexer

end HotFields.Yaml
