import HotFields.Yaml.Cursor

namespace HotFields.Yaml

/-- How a scalar was written. -/
inductive ScalarStyle where
  | plain
  | quoted
  | literal
  | folded
  deriving DecidableEq

/-- Blanks and line ends between two words. Blanks only count while there is no line end. -/
structure Gap where
  blanks : List Char := []
  broken : Bool := false
  first : List Char := []
  more : List Char := []

namespace Gap

/-- What is left of a gap. One line end becomes a space, and of several the first is dropped. -/
def fold (g : Gap) : List Char :=
  if !g.broken then g.blanks
  else if g.first.head? = some '\n' then if g.more.isEmpty then [' '] else g.more
  else g.first ++ g.more

end Gap

namespace Lexer

/-- Takes the gap before the next word. On a new line a tab must not stand left of the indentation. -/
def gap (indent : Nat) (start : Gap) : Lexer Gap :=
  iterate (fun g => do
    match ← peek with
    | some c =>
      if isBlank c then
        if g.broken then do
          let column := (← get).column
          guard (!(column < indent && c = '\t'))
          skip 1
          return (g, false)
        else do
          skip 1
          return ({ g with blanks := g.blanks ++ [c] }, false)
      else if isBreak c then do
        let text ← takeBreak
        if g.broken then return ({ g with more := g.more ++ text }, false)
        else return ({ g with blanks := [], broken := true, first := text }, false)
      else return (g, true)
    | none => return (g, true)) start

/-- Takes a number of hexadecimal digits. -/
def hexDigits : Nat → Nat → Lexer Nat
  | 0, value => pure value
  | count + 1, value => do
    match (← peek).bind Digit.hexValue? with
    | some digit => do
      skip 1
      hexDigits count (value * 16 + digit)
    | none => failure

/-- The character with a code. -/
def charOf (code : Nat) : Lexer Char :=
  if code.isValidChar then pure (Char.ofNat code) else failure

/-- Takes an escaped character with its backslash. -/
def escape : Lexer Char := do
  skip 1
  match ← one fun _ => true with
  | '0' => pure '\x00'
  | 'a' => pure '\x07'
  | 'b' => pure '\x08'
  | 't' | '\t' => pure '\t'
  | 'n' => pure '\n'
  | 'v' => pure '\x0b'
  | 'f' => pure '\x0c'
  | 'r' => pure '\r'
  | 'e' => pure '\x1b'
  | ' ' => pure ' '
  | '"' => pure '"'
  | '/' => pure '/'
  | '\\' => pure '\\'
  | 'N' => pure '\u0085'
  | '_' => pure '\u00a0'
  | 'L' => pure '\u2028'
  | 'P' => pure '\u2029'
  | 'x' => do charOf (← hexDigits 2 0)
  | 'u' => do charOf (← hexDigits 4 0)
  | 'U' => do charOf (← hexDigits 8 0)
  | _ => failure

/-- Takes the characters up to the next blank, line end or closing mark. The result says whether an
escaped line end stopped it. -/
def quotedWord (single : Bool) : Lexer (List Char × Bool) := do
  let (word, broken) ← iterate (fun (done, _) => do
    match ← peek, ← peekAt 1 with
    | none, _ => return ((done, false), true)
    | some c, following =>
      if isBlankOrBreak c then return ((done, false), true)
      else if single then
        if c = '\'' then
          if following = some '\'' then do
            skip 2
            return (('\'' :: done, false), false)
          else return ((done, false), true)
        else do
          skip 1
          return ((c :: done, false), false)
      else if c = '"' then return ((done, false), true)
      else if c = '\\' then
        if following.any isBreak then do
          skip 1
          let _ ← takeBreak
          return ((done, true), true)
        else return (((← escape) :: done, false), false)
      else do
        skip 1
        return ((c :: done, false), false)) (([] : List Char), false)
  return (word.reverse, broken)

/-- Takes a scalar between apostrophes or quotation marks. -/
def quotedScalar (single : Bool) : Lexer String := do
  let mark := if single then '\'' else '"'
  skip 1
  let pieces ← iterate (fun pieces => do
    guard (!(← get).atDocumentMarker)
    guard (← peek).isSome
    let (word, broken) ← quotedWord single
    if (← peek) = some mark then
      skip 1
      return (word :: pieces, true)
    else
      let g ← gap 0 { broken }
      return (g.fold :: word :: pieces, false)) ([] : List (List Char))
  return String.ofList pieces.reverse.flatten

/-- Marks that end a plain scalar between brackets or braces. -/
def isFlowMark (c : Char) : Bool :=
  c = ',' || c = '[' || c = ']' || c = '{' || c = '}'

/-- Takes the characters of a plain scalar up to the next blank or line end, or to a mark that ends the
scalar. -/
def plainWord (inFlow : Bool) : Lexer (List Char) := do
  let word ← iterate (fun done => do
    match ← peek, ← peekAt 1 with
    | none, _ => return (done, true)
    | some c, following =>
      if isBlankOrBreak c then return (done, true)
      else if inFlow && c = ':' && following.any (fun d => isFlowMark d || d = '?') then failure
      else if (c = ':' && endsWord following) || (inFlow && isFlowMark c) then return (done, true)
      else do
        skip 1
        return (c :: done, false)) ([] : List Char)
  return word.reverse

/-- A plain scalar under way: the pieces of its text, the last one first, and the gap after the last
word. -/
structure PlainDraft where
  pieces : List (List Char) := []
  gap : Gap := {}

/-- Takes a plain scalar and the gap behind it. The result says whether that gap has a line end. -/
def plainScalar (inFlow : Bool) (indent : Nat) : Lexer (String × Bool) := do
  let draft ← iterate (fun (d : PlainDraft) => do
    if (← get).atDocumentMarker || (← peek) = some '#' then return (d, true)
    let word ← plainWord inFlow
    let d : PlainDraft := if word.isEmpty then d else ⟨word :: d.gap.fold :: d.pieces, {}⟩
    match ← peek with
    | some c =>
      if isBlankOrBreak c then do
        let g ← gap indent d.gap
        let column := (← get).column
        return ({ d with gap := g }, !inFlow && column < indent)
      else return (d, true)
    | none => return (d, true)) {}
  return (String.ofList draft.pieces.reverse.flatten, draft.gap.broken)

/-- What happens to the line ends at the end of a block scalar. -/
inductive Chomping where
  | strip
  | clip
  | keep
  deriving DecidableEq

def chompingMark? : Lexer (Option Chomping) := do
  match ← peek with
  | some '+' => skip 1; return some .keep
  | some '-' => skip 1; return some .strip
  | _ => return none

/-- Takes the number of columns that a block scalar is indented by. It is not zero. -/
def indentMark? : Lexer (Option Nat) := do
  match ← peek with
  | some c =>
    if c.isDigit then do
      guard (c ≠ '0')
      skip 1
      return some (Digit.value c)
    else return none
  | none => return none

/-- Takes the marks after the indicator, in either order. -/
def blockHeader : Lexer (Chomping × Option Nat) := do
  match ← chompingMark? with
  | some chomping => return (chomping, ← indentMark?)
  | none => do
    let columns ← indentMark?
    if columns.isSome then return ((← chompingMark?).getD .clip, columns)
    else return (.clip, none)

/-- Takes empty lines and the indentation of the next line. Without a known indentation all spaces are
taken, and the longest run is reported. -/
def blockBreaks (indent : Option Nat) : Lexer (List Char × Nat) :=
  iterate (fun (breaks, longest) => do
    let start ← get
    let spaces := (start.rest.takeWhile (· = ' ')).length
    skip ((indent.map fun n => min spaces (n - start.column)).getD spaces)
    let column := (← get).column
    let longest := max longest column
    guard (!(indent.all (column < ·) && (← peek) = some '\t'))
    match ← peek with
    | some c =>
      if isBreak c then return ((breaks ++ (← takeBreak), longest), false)
      else return ((breaks, longest), true)
    | none => return ((breaks, longest), true)) (([] : List Char), 0)

/-- A block scalar under way: the pieces of its text, the last one first, the last line end, the empty lines
after it, and whether the last line started with a blank. -/
structure BlockDraft where
  pieces : List (List Char) := []
  last : List Char := []
  empty : List Char := []
  blank : Bool := false

/-- The line end before a line that is not empty. -/
def BlockDraft.join (folded startsBlank : Bool) (d : BlockDraft) : List Char :=
  if folded && d.last.head? = some '\n' && !d.blank && !startsBlank then
    (if d.empty.isEmpty then [' '] else []) ++ d.empty
  else d.last ++ d.empty

/-- Takes a block scalar. The parent's indentation is below zero at the top of a document. -/
def blockScalar (folded : Bool) (parent : Int) : Lexer String := do
  skip 1
  let (chomping, columns) ← blockHeader
  endLine
  let known := columns.map fun n => (max parent 0).toNat + n
  let (empty, longest) ← blockBreaks known
  let indent := known.getD (max (max longest (parent + 1).toNat) 1)
  let draft ← iterate (fun (d : BlockDraft) => do
    let column := (← get).column
    match ← peek with
    | some c =>
      if column = indent then do
        let joined := d.join folded (isBlank c)
        let line ← restOfLine
        let last ← takeBreak
        let (empty, _) ← blockBreaks (some indent)
        return (⟨line :: joined :: d.pieces, last, empty, isBlank c⟩, false)
      else return (d, true)
    | none => return (d, true)) { empty }
  let tail := match chomping with
    | .strip => []
    | .clip => draft.last
    | .keep => draft.last ++ draft.empty
  return String.ofList (draft.pieces.reverse.flatten ++ tail)

end Lexer

end HotFields.Yaml
