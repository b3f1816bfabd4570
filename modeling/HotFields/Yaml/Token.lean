import HotFields.Yaml.Property

namespace HotFields.Yaml

inductive Token where
  | directive (d : Directive)
  | documentStart
  | documentEnd
  | blockSequenceStart
  | blockMappingStart
  | blockEnd
  | flowSequenceStart
  | flowSequenceEnd
  | flowMappingStart
  | flowMappingEnd
  | blockEntry
  | flowEntry
  | key
  | value
  | alias (name : String)
  | anchor (name : String)
  | tag (handle suffix : String)
  | scalar (text : String) (style : ScalarStyle)
  deriving DecidableEq

/-- A place where a key may have started. Whether a node is the key of a mapping shows only at the colon behind it;
the tokens that announce the key are put at its place then. -/
structure PossibleKey where
  /-- It must turn out to be a key. -/
  required : Bool
  /-- The number of tokens before it. -/
  position : Nat
  index : Nat
  line : Nat
  column : Nat

/-- The tokens found so far and what decides about the next one. -/
structure Scan where
  cursor : Cursor
  /-- The newest token first. -/
  tokens : List Token := []
  /-- The number of tokens. -/
  count : Nat := 0
  /-- The column of the block collection that is open; below zero if there is none. -/
  indent : Int := -1
  /-- The columns of the block collections around it. -/
  indents : List Int := []
  key : Option PossibleKey := none
  /-- The possible keys around the open brackets and braces, the innermost first. -/
  outerKeys : List (Option PossibleKey) := []
  keyAllowed : Bool := true

/-- Changes a scan; it has no answer where the text is not YAML. -/
abbrev Scanner := StateT Scan Option

namespace Scan

def inFlow (s : Scan) : Bool := !s.outerKeys.isEmpty

def push (s : Scan) (t : Token) : Scan :=
  { s with tokens := t :: s.tokens, count := s.count + 1 }

/-- Puts a token behind a number of others. -/
def insertAt (s : Scan) (position : Nat) (t : Token) : Scan :=
  let newer := s.count - position
  { s with tokens := s.tokens.take newer ++ t :: s.tokens.drop newer, count := s.count + 1 }

/-- Opens a block collection at a column, unless one is open there or further right. -/
def openBlock (s : Scan) (column : Nat) (position : Option Nat) (t : Token) : Scan :=
  if s.inFlow || (column : Int) ≤ s.indent then s
  else
    let s := { s with indents := s.indent :: s.indents, indent := column }
    match position with
    | some n => s.insertAt n t
    | none => s.push t

/-- Closes the block collections that are open to the right of a column. -/
def closeBlocks (s : Scan) (column : Int) : Scan :=
  if s.inFlow then s else go s.indents s
where
  go : List Int → Scan → Scan
    | [], s => s
    | outer :: rest, s =>
      if column < s.indent then
        go rest { s.push .blockEnd with indent := outer, indents := rest }
      else s

/-- A possible key ends on its line, and has at most this many characters. -/
def keyReach : Nat := 1024

def isStale (c : Cursor) (k : PossibleKey) : Bool :=
  k.line < c.line || k.index + keyReach < c.index

/-- Gives a possible key up. -/
def giveUp (k : Option PossibleKey) : Option Unit :=
  if k.any PossibleKey.required then none else some ()

/-- Gives a possible key up if it is out of reach. -/
def refresh (c : Cursor) (k : Option PossibleKey) : Option (Option PossibleKey) :=
  if k.any (isStale c) then (giveUp k).map fun _ => none else some k

end Scan

namespace Scanner

def lex {α : Type} (lexer : Lexer α) : Scanner α := fun s => do
  let (a, cursor) ← lexer s.cursor
  return (a, { s with cursor })

def push (t : Token) : Scanner Unit := modify fun s => s.push t

def allowKey (allowed : Bool) : Scanner Unit := modify fun s => { s with keyAllowed := allowed }

def closeBlocks (column : Int) : Scanner Unit := modify fun s => s.closeBlocks column

/-- Gives up the possible key of this level. -/
def dropKey : Scanner Unit := fun s => do
  Scan.giveUp s.key
  return ((), { s with key := none })

/-- Remembers that a key may start here. Where a block mapping is open at this very column it must. -/
def saveKey : Scanner Unit := fun s =>
  if s.keyAllowed then do
    Scan.giveUp s.key
    let c := s.cursor
    let required := !s.inFlow && s.indent = (c.column : Int)
    return ((), { s with key := some ⟨required, s.count, c.index, c.line, c.column⟩ })
  else some ((), s)

/-- Drops possible keys that are out of reach. -/
def refreshKeys : Scanner Unit := fun s => do
  let key ← Scan.refresh s.cursor s.key
  let outerKeys ← s.outerKeys.mapM (Scan.refresh s.cursor)
  return ((), { s with key, outerKeys })

/-- Drops blanks, comments and line ends. Tabs are no indentation, so they do not count where a key may
start in a block. -/
def skipToToken : Scanner Unit := fun s => do
  let ((keyAllowed, _), cursor) ← (Lexer.iterate (step s.inFlow) (s.keyAllowed, ())) s.cursor
  return ((), { s with keyAllowed, cursor })
where
  step (inFlow : Bool) (state : Bool × Unit) : Lexer ((Bool × Unit) × Bool) := do
    let (keyAllowed, _) := state
    if (← get).column = 0 && (← Lexer.peek) = some '\ufeff' then Lexer.skip 1
    let _ ← Lexer.run fun c => c = ' ' || ((inFlow || !keyAllowed) && c = '\t')
    Lexer.skipComment
    match ← Lexer.peek with
    | some c =>
      if isBreak c then do
        let _ ← Lexer.takeBreak
        return ((keyAllowed || !inFlow, ()), false)
      else return ((keyAllowed, ()), true)
    | none => return ((keyAllowed, ()), true)

/-- Takes a directive or a document marker, before which everything is closed. -/
def atTopLevel (t : Lexer Token) : Scanner Unit := do
  closeBlocks (-1)
  dropKey
  allowKey false
  push (← lex t)

def openFlow (t : Token) : Scanner Unit := do
  saveKey
  modify fun s => { s with key := none, outerKeys := s.key :: s.outerKeys, keyAllowed := true }
  lex (Lexer.skip 1)
  push t

def closeFlow (t : Token) : Scanner Unit := do
  dropKey
  modify fun s =>
    { s with key := s.outerKeys.headD none, outerKeys := s.outerKeys.tail, keyAllowed := false }
  lex (Lexer.skip 1)
  push t

def flowEntry : Scanner Unit := do
  dropKey
  allowKey true
  lex (Lexer.skip 1)
  push .flowEntry

/-- Opens a block collection for an indicator. -/
def openBlockHere (t : Token) : Scanner Unit := do
  let s ← get
  unless s.inFlow do
    guard s.keyAllowed
    set (s.openBlock s.cursor.column none t)

def blockEntry : Scanner Unit := do
  openBlockHere .blockSequenceStart
  dropKey
  allowKey true
  lex (Lexer.skip 1)
  push .blockEntry

def keyIndicator : Scanner Unit := do
  openBlockHere .blockMappingStart
  dropKey
  allowKey (!(← get).inFlow)
  lex (Lexer.skip 1)
  push .key

/-- Takes a colon. If a key may have started on this line, it has. -/
def valueIndicator : Scanner Unit := do
  let s ← get
  match s.key with
  | some k =>
    let s := s.insertAt k.position .key
    let s := s.openBlock k.column (some k.position) .blockMappingStart
    set { s with key := none, keyAllowed := false }
  | none => do
    openBlockHere .blockMappingStart
    allowKey (!(← get).inFlow)
  lex (Lexer.skip 1)
  push .value

/-- Takes a token that may be, or belong to, a key. -/
def keyPart (t : Lexer Token) : Scanner Unit := do
  saveKey
  allowKey false
  push (← lex t)

def blockScalar (folded : Bool) : Scanner Unit := do
  dropKey
  allowKey true
  let indent := (← get).indent
  let text ← lex (Lexer.blockScalar folded indent)
  push (.scalar text (if folded then .folded else .literal))

def plainScalar : Scanner Unit := do
  saveKey
  allowKey false
  let s ← get
  let (text, broken) ← lex (Lexer.plainScalar s.inFlow (s.indent + 1).toNat)
  if broken then allowKey true
  push (.scalar text .plain)

/-- Characters with a meaning of their own, which a plain scalar does not start with. -/
def isIndicator (c : Char) : Bool :=
  "-?:,[]\x7b\x7d#&*!|>'\"%@`".toList.contains c

/-- Whether a plain scalar can start with a character, given the one behind it. -/
def startsPlain (inFlow : Bool) (c : Char) (following : Option Char) : Bool :=
  !(isBlankOrBreak c || isIndicator c) ||
    (c = '-' && !following.any isBlank) ||
    (!inFlow && (c = '?' || c = ':') && !endsWord following)

/-- Takes the token that starts with a character. -/
def tokenAt (c : Char) : Scanner Unit := do
  let s ← get
  let following := s.cursor.rest[1]?
  let indicates := s.inFlow || endsWord following
  if s.cursor.column = 0 && c = '%' then atTopLevel (Token.directive <$> Lexer.directive)
  else if s.cursor.atMarker '-' then atTopLevel (do Lexer.skip 3; return .documentStart)
  else if s.cursor.atMarker '.' then atTopLevel (do Lexer.skip 3; return .documentEnd)
  else if c = '[' then openFlow .flowSequenceStart
  else if c = '{' then openFlow .flowMappingStart
  else if c = ']' then closeFlow .flowSequenceEnd
  else if c = '}' then closeFlow .flowMappingEnd
  else if c = ',' then flowEntry
  else if c = '-' && endsWord following then blockEntry
  else if c = '?' && indicates then keyIndicator
  else if c = ':' && indicates then valueIndicator
  else if c = '*' then keyPart (Token.alias <$> Lexer.anchorName)
  else if c = '&' then keyPart (Token.anchor <$> Lexer.anchorName)
  else if c = '!' then
    keyPart ((fun (handle, suffix) => Token.tag handle suffix) <$> Lexer.tag s.inFlow)
  else if c = '|' && !s.inFlow then blockScalar false
  else if c = '>' && !s.inFlow then blockScalar true
  else if c = '\'' then
    keyPart ((fun text => Token.scalar text .quoted) <$> Lexer.quotedScalar true)
  else if c = '"' then
    keyPart ((fun text => Token.scalar text .quoted) <$> Lexer.quotedScalar false)
  else if startsPlain s.inFlow c following then plainScalar
  else failure

/-- Takes tokens up to the end of the text. Every token takes a character at least. -/
def tokensFrom : Nat → Scanner Unit
  | 0 => failure
  | fuel + 1 => do
    skipToToken
    refreshKeys
    let s ← get
    closeBlocks s.cursor.column
    match s.cursor.rest with
    | [] => do
      closeBlocks (-1)
      dropKey
    | c :: _ => do
      tokenAt c
      tokensFrom fuel

end Scanner

/-- The tokens of a text, if it has only characters that are allowed. -/
def tokens (text : String) : Option (List Token) := do
  let chars := text.toList
  guard (chars.all isAllowed)
  let (_, s) ← Scanner.tokensFrom (chars.length + 1) { cursor := { rest := chars } }
  return s.tokens.reverse

end HotFields.Yaml
