import HotFields.Yaml.Token

namespace HotFields.Yaml

/-- A node with its tag, if it has one. -/
inductive Node where
  | scalar (tag : Option String) (style : ScalarStyle) (text : String)
  | sequence (tag : Option String) (items : List Node)
  | mapping (tag : Option String) (entries : List (Node × Node))
  | anchored (id : Nat) (node : Node)
  | alias (id : Nat)

namespace Node

/-- A node that is not written at all. -/
def absent : Node := .scalar none .plain ""

mutual

/-- The number of steps in which a node is announced: one for a scalar or an alias, and two around the
parts of a collection. -/
def steps : Node → Nat
  | .scalar .. => 1
  | .sequence _ items => 2 + itemSteps items
  | .mapping _ entries => 2 + entrySteps entries
  | .anchored _ node => node.steps
  | .alias _ => 1

def itemSteps : List Node → Nat
  | [] => 0
  | n :: rest => n.steps + itemSteps rest

def entrySteps : List (Node × Node) → Nat
  | [] => 0
  | (key, value) :: rest => key.steps + value.steps + entrySteps rest

end

mutual

/-- The anchored nodes inside a node in the order written, each before those inside it. -/
def anchors : Node → List (Nat × Node)
  | .scalar .. => []
  | .sequence _ items => itemAnchors items
  | .mapping _ entries => entryAnchors entries
  | .anchored id node => (id, node) :: node.anchors
  | .alias _ => []

def itemAnchors : List Node → List (Nat × Node)
  | [] => []
  | n :: rest => n.anchors ++ itemAnchors rest

def entryAnchors : List (Node × Node) → List (Nat × Node)
  | [] => []
  | (key, value) :: rest => key.anchors ++ value.anchors ++ entryAnchors rest

end

end Node

/-- The tokens to come, the meanings of tag handles, and the anchors that are bound. -/
structure ParseState where
  tokens : List Token
  handles : List (String × String) := []
  names : List (String × Nat) := []

/-- Takes tokens; it has no answer where they are not YAML. -/
abbrev Parser := StateT ParseState Option

namespace Parser

def peek : Parser (Option Token) := do return (← get).tokens.head?

def skip : Parser Unit := modify fun s => { s with tokens := s.tokens.tail }

/-- Whether one of some tokens comes next. -/
def nextIs (wanted : List Token) : Parser Bool := do
  return (← peek).any wanted.contains

/-- Takes a token if it comes next. -/
def accept (wanted : Token) : Parser Bool := do
  if (← peek) = some wanted then
    skip
    return true
  else return false

/-- Binds a name and gives the number of its anchor. It is the count of names that are bound, so a name that is
bound again frees a number for the next anchor. -/
def bind (name : String) : Parser Nat := do
  let s ← get
  let id := s.names.length
  set { s with names := (name, id) :: s.names.filter fun n => n.1 ≠ name }
  return id

/-- The tag that a handle and a suffix stand for. -/
def resolveTag (handle suffix : String) : Parser String := do
  if handle.isEmpty then return suffix
  let meaning ← ((← get).handles.lookup handle : Option String)
  return meaning ++ suffix

def anchor? : Parser (Option String) := do
  match ← peek with
  | some (.anchor name) => skip; return some name
  | _ => return none

def tag? : Parser (Option String) := do
  match ← peek with
  | some (.tag handle suffix) => do
    skip
    return some (← resolveTag handle suffix)
  | _ => return none

/-- Takes an anchor and a tag in either order. -/
def properties : Parser (Option Nat × Option String) := do
  let before ← anchor?
  let tag ← tag?
  let name ← if before.isSome then pure before else anchor?
  match name with
  | some name => return (some (← bind name), tag)
  | none => return (none, tag)

/-- A tag of a scalar that only says that the scalar is not to be given a type. -/
def scalarTag (tag : Option String) : Option String :=
  if tag = some "!" then none else tag

def withAnchor (id : Option Nat) (n : Node) : Node :=
  match id with
  | some id => .anchored id n
  | none => n

mutual

/-- Takes a node. Block collections may start only in a block, and where `flat` is set a sequence may
stand at the column of the mapping around it. -/
def node : Nat → Bool → Bool → Parser Node
  | 0, _, _ => failure
  | fuel + 1, block, flat => do
    match ← peek with
    | some (.alias name) => do
      skip
      return .alias (← ((← get).names.lookup name : Option Nat))
    | _ => do
      let (id, tag) ← properties
      let content ← contentOf fuel block flat (id.isSome || tag.isSome) tag
      return withAnchor id content

/-- Takes what follows the anchor and the tag of a node. It may be absent if there is either. -/
def contentOf : Nat → Bool → Bool → Bool → Option String → Parser Node
  | 0, _, _, _, _ => failure
  | fuel + 1, block, flat, marked, tag => do
    match ← peek with
    | some .blockEntry =>
      if flat then .sequence tag <$> flatItems fuel
      else absentIf marked tag
    | some (.scalar text style) => do
      skip
      return .scalar (scalarTag tag) style text
    | some .flowSequenceStart => do
      skip
      .sequence tag <$> flowItems fuel true
    | some .flowMappingStart => do
      skip
      .mapping tag <$> flowEntries fuel true
    | some .blockSequenceStart =>
      if block then do
        skip
        .sequence tag <$> blockItems fuel
      else absentIf marked tag
    | some .blockMappingStart =>
      if block then do
        skip
        .mapping tag <$> blockEntries fuel
      else absentIf marked tag
    | _ => absentIf marked tag

/-- A node without content. -/
def absentIf (marked : Bool) (tag : Option String) : Parser Node :=
  if marked then pure (.scalar tag .plain "") else failure

/-- Takes a node, unless one of some tokens comes next. -/
def nodeUnless : Nat → List Token → Bool → Bool → Parser Node
  | 0, _, _, _ => failure
  | fuel + 1, ends, block, flat => do
    if ← nextIs ends then return Node.absent else node fuel block flat

/-- Takes the items of a block sequence and its end. -/
def blockItems : Nat → Parser (List Node)
  | 0 => failure
  | fuel + 1 => do
    if ← accept .blockEntry then
      let n ← nodeUnless fuel [.blockEntry, .blockEnd] true false
      return n :: (← blockItems fuel)
    else
      guard (← accept .blockEnd)
      return []

/-- Takes the items of a sequence at the column of the mapping around it. -/
def flatItems : Nat → Parser (List Node)
  | 0 => failure
  | fuel + 1 => do
    if ← accept .blockEntry then
      let n ← nodeUnless fuel [.blockEntry, .key, .value, .blockEnd] true false
      return n :: (← flatItems fuel)
    else return []

/-- Takes the entries of a block mapping and its end. -/
def blockEntries : Nat → Parser (List (Node × Node))
  | 0 => failure
  | fuel + 1 => do
    if ← accept .key then
      let key ← nodeUnless fuel [.key, .value, .blockEnd] true true
      let value ←
        if ← accept .value then nodeUnless fuel [.key, .value, .blockEnd] true true
        else pure Node.absent
      return (key, value) :: (← blockEntries fuel)
    else
      guard (← accept .blockEnd)
      return []

/-- Takes the items of a sequence in brackets and the closing one. A key among them starts a mapping with
one entry. -/
def flowItems : Nat → Bool → Parser (List Node)
  | 0, _ => failure
  | fuel + 1, first => do
    if ← accept .flowSequenceEnd then return []
    unless first do guard (← accept .flowEntry)
    if ← accept .key then
      let entry ← flowPair fuel
      return .mapping none [entry] :: (← flowItems fuel false)
    else if ← accept .flowSequenceEnd then return []
    else
      let n ← node fuel false false
      return n :: (← flowItems fuel false)

/-- Takes the only entry of a mapping in a sequence. A key that is absent takes the next token with it. -/
def flowPair : Nat → Parser (Node × Node)
  | 0 => failure
  | fuel + 1 => do
    let key ←
      if ← nextIs [.value, .flowEntry, .flowSequenceEnd] then do
        skip
        pure Node.absent
      else node fuel false false
    let value ←
      if ← accept .value then nodeUnless fuel [.flowEntry, .flowSequenceEnd] false false
      else pure Node.absent
    return (key, value)

/-- Takes the entries of a mapping in braces and the closing one. -/
def flowEntries : Nat → Bool → Parser (List (Node × Node))
  | 0, _ => failure
  | fuel + 1, first => do
    if ← accept .flowMappingEnd then return []
    unless first do guard (← accept .flowEntry)
    if ← accept .key then
      let key ← nodeUnless fuel [.value, .flowEntry, .flowMappingEnd] false false
      let value ←
        if ← accept .value then nodeUnless fuel [.flowEntry, .flowMappingEnd] false false
        else pure Node.absent
      return (key, value) :: (← flowEntries fuel false)
    else if ← accept .flowMappingEnd then return []
    else
      let key ← node fuel false false
      return (key, Node.absent) :: (← flowEntries fuel false)

end

/-- Takes directives: at most one version, which must be known, and every tag handle once. -/
def directives : Nat → Bool → Parser Unit
  | 0, _ => failure
  | fuel + 1, versioned => do
    match ← peek with
    | some (.directive (.version major minor)) => do
      guard (!versioned && major = 1 && (minor = 1 || minor = 2))
      skip
      directives fuel true
    | some (.directive (.tag handle meaning)) => do
      guard ((← get).handles.lookup handle).isNone
      modify fun s => { s with handles := s.handles ++ [(handle, meaning)] }
      skip
      directives fuel versioned
    | _ => pure ()

/-- The handles that need no directive. -/
def standardHandles : List (String × String) :=
  [("!", "!"), ("!!", "tag:yaml.org,2002:")]

def useStandardHandles : Parser Unit :=
  modify fun s => { s with handles := s.handles ++ standardHandles }

/-- Takes the root of a document. Without a marker the document starts at once, and is not empty. -/
def root (fuel : Nat) : Parser Node := do
  match ← peek with
  | some (.directive _) | some .documentStart => do
    directives fuel false
    useStandardHandles
    guard (← accept .documentStart)
    match ← peek with
    | none | some (.directive _) | some .documentStart | some .documentEnd => return Node.absent
    | some _ => node fuel true false
  | _ => do
    useStandardHandles
    node fuel true false

/-- The fuel for tokens: no token is looked at more often by steps that take none. -/
def fuelFor (tokens : List Token) : Nat := 4 * tokens.length + 8

end Parser

/-- A document: its root, unless there is nothing in the text. -/
structure Document where
  root : Option Node
  /-- The last anchored node first. -/
  anchors : List (Nat × Node) := []
  steps : Nat := 1

/-- The document that tokens make. A second one must not follow. -/
def Document.ofTokens (tokens : List Token) : Option Document :=
  if tokens.isEmpty then some { root := none }
  else do
    let (root, s) ← (Parser.root (Parser.fuelFor tokens)).run { tokens }
    guard (s.tokens.all (· = .documentEnd))
    return { root := some root, anchors := root.anchors.reverse, steps := root.steps }

/-- Reads a text with one document. -/
def parse (text : String) : Option Document := do
  Document.ofTokens (← tokens text)

end HotFields.Yaml
