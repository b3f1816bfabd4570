import HotFields.Number.Binary64

namespace HotFields.Toml

/-- How a table came to be, which decides whether a later key or header may still add to it. -/
inductive TableForm where
  /-- The whole document, or a table with a header of its own. -/
  | header
  /-- Only named on the way to the table of a header. -/
  | implied
  /-- Only named on the way to the last part of a dotted key. -/
  | dotted
  /-- Written between braces. -/
  | inline
  deriving DecidableEq

/-- A value. Which date or time a `moment` is does not matter here. -/
inductive Value where
  | text (s : String)
  | integer (n : Int)
  | float (x : Binary64)
  | bool (b : Bool)
  | moment
  | array (items : List Value)
  | table (form : TableForm) (entries : List (String × Value))
  /-- Tables that share a header in double brackets. -/
  | tables (elements : List (List (String × Value)))

/-- The entries of a table, in the order written. -/
abbrev Entries := List (String × Value)

namespace Entries

/-- Changes the value of a key. -/
def replace (key : String) (v : Value) (entries : Entries) : Entries :=
  entries.map fun e => if e.1 = key then (key, v) else e

def erase (key : String) (entries : Entries) : Entries :=
  entries.filter fun e => e.1 ≠ key

/-- Adds an entry with a new key. -/
def insertNew (key : String) (v : Value) (entries : Entries) : Option Entries :=
  if (entries.lookup key).isSome then none else some (entries ++ [(key, v)])

/-- Changes the table at the end of a path, making tables on the way where there are none. In an array of
tables the path goes on in the last one. A dotted key does not go through a table with a header. -/
def update {α : Type} (dotted : Bool) (change : TableForm → Entries → Option (α × Entries)) :
    List String → TableForm → Entries → Option (α × Entries)
  | [], form, entries => change form entries
  | key :: path, _, entries =>
    match entries.lookup key with
    | none => do
      let form := if dotted then TableForm.dotted else .implied
      let (a, inner) ← update dotted change path form []
      return (a, entries ++ [(key, .table form inner)])
    | some (.table form inner) =>
      if form = .inline || (dotted && form = .header) then none
      else do
        let (a, inner) ← update dotted change path form inner
        return (a, replace key (.table form inner) entries)
    | some (.tables elements) => do
      let (a, inner) ← update dotted change path .header (← elements.getLast?)
      return (a, replace key (.tables (elements.dropLast ++ [inner])) entries)
    | some _ => none

/-- Adds the value of a key, which may be dotted: `path` holds the parts before the last. A table that
is extended by dotted keys has no plain ones, and the other way round. -/
def insert (form : TableForm) (path : List String) (key : String) (v : Value) (entries : Entries) :
    Option Entries := do
  let add (form : TableForm) (inner : Entries) : Option (Unit × Entries) :=
    if (form = .dotted) = path.isEmpty then none
    else (insertNew key v inner).map fun inner => ((), inner)
  let (_, entries) ← update true add path form entries
  return entries

end Entries

/-- A document that has been read up to some line. The table of the last header is kept apart. -/
structure Draft where
  root : Entries := []
  path : List String := []
  repeats : Bool := false
  current : Entries := []

namespace Draft

/-- The document with the table of the last header in its place. -/
def close (d : Draft) : Option Entries :=
  match d.path.getLast? with
  | none => some d.current
  | some key => do
    let put (_ : TableForm) (entries : Entries) : Option (Unit × Entries) :=
      if d.repeats then
        match entries.lookup key with
        | some (.tables elements) =>
          some ((), entries.replace key (.tables (elements ++ [d.current])))
        | _ => none
      else some ((), entries ++ [(key, .table .header d.current)])
    let (_, root) ← Entries.update false put d.path.dropLast .header d.root
    return root

/-- Starts the table of a header. A table that was only named on the way to another one goes on. -/
def openTable (d : Draft) (path : List String) : Option Draft := do
  let key ← path.getLast?
  let take (_ : TableForm) (entries : Entries) : Option (Entries × Entries) :=
    match entries.lookup key with
    | none => some ([], entries)
    | some (.table .implied inner) => some (inner, entries.erase key)
    | some _ => none
  let (current, root) ← Entries.update false take path.dropLast .header (← d.close)
  return { root, path, current }

/-- Starts one more table of a header in double brackets. -/
def openElement (d : Draft) (path : List String) : Option Draft := do
  let key ← path.getLast?
  let take (_ : TableForm) (entries : Entries) : Option (Unit × Entries) :=
    match entries.lookup key with
    | none => some ((), entries ++ [(key, .tables [])])
    | some (.tables _) => some ((), entries)
    | some _ => none
  let (_, root) ← Entries.update false take path.dropLast .header (← d.close)
  return { root, path, repeats := true }

/-- Adds an entry to the table of the last header. -/
def insert (d : Draft) (path : List String) (key : String) (v : Value) : Option Draft := do
  return { d with current := ← d.current.insert .header path key v }

end Draft

end HotFields.Toml
