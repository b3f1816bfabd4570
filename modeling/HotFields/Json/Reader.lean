import HotFields.Json.Printer

namespace HotFields.Json

/-- Why reading stops. -/
inductive Fault where
  /-- The text ends too early. -/
  | truncated
  /-- The text is not JSON, or holds a number or nesting out of range. -/
  | malformed
  /-- A value is not what was wanted. -/
  | mismatch (m : Mismatch)
  deriving DecidableEq

def Fault.message : Fault → String
  | .truncated => "unexpected end of text"
  | .malformed => "malformed text"
  | .mismatch m => m.message floatLayout

/-- Takes a value from the front of a text and leaves the rest, so that the first problem met is the one reported.
-/
abbrev Reader := StateT (List Char) (Except Fault)

namespace Reader

variable {α : Type}

def truncated : Reader α := throw .truncated

def malformed : Reader α := throw .malformed

def mismatch (m : Mismatch) : Reader α := throw (.mismatch m)

def ofMismatch : Except Mismatch α → Reader α
  | .ok a => pure a
  | .error m => mismatch m

def isBlank (c : Char) : Bool :=
  c = ' ' || c = '\n' || c = '\t' || c = '\r'

/-- Drops blanks and shows the next character. -/
def peek : Reader (Option Char) := fun text =>
  let rest := text.dropWhile isBlank
  .ok (rest.head?, rest)

/-- Takes the next character, blank or not. -/
def next : Reader (Option Char)
  | [] => .ok (none, [])
  | c :: rest => .ok (some c, rest)

/-- Drops one character. -/
def advance : Reader Unit := fun text => .ok ((), text.tail)

/-- Takes characters that were announced by the one before. -/
def expectRest : List Char → Reader Unit
  | [] => pure ()
  | c :: rest => do
    match ← next with
    | none => truncated
    | some d => if d = c then expectRest rest else malformed

end Reader

/-- Reads a whole text. Only blanks may follow the value. -/
def Reader.run {α : Type} (reader : Reader α) (text : String) : Except Fault α := do
  let (a, rest) ← StateT.run reader text.toList
  if rest.all Reader.isBlank then return a else throw .malformed

end HotFields.Json
