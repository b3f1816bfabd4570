import HotFields.Program.Basic

namespace HotFields

/-- Users by operand: the listed instructions that have it among their operands, in listing order. -/
abbrev UseLists := List (Value × List InstId)

namespace UseLists

/-- The users of a value. -/
def users (uses : UseLists) (v : Value) : List InstId :=
  (uses.lookup v).getD []

/-- Appends a user unless it is already the last one. -/
def appendUser (users : List InstId) (i : InstId) : List InstId :=
  if users.getLast? = some i then users else users ++ [i]

/-- Notes that an instruction uses a value. -/
def add (v : Value) (i : InstId) : UseLists → UseLists
  | [] => [(v, [i])]
  | (w, users) :: rest =>
    if w = v then (w, appendUser users i) :: rest else (w, users) :: add v i rest

/-- Notes the operands of one listed instruction. Integer constants have no users. -/
def addOperands (i : InstId) (operands : List Value) (uses : UseLists) : UseLists :=
  operands.foldl (fun uses v => if v.isConstInt then uses else uses.add v i) uses

end UseLists

/-- The use lists of a program. A listed id without an instruction uses nothing. -/
def Program.useLists (p : Program) : UseLists :=
  p.listing.foldl
    (fun uses i =>
      match p.instruction? i with
      | none => uses
      | some inst => uses.addOperands i inst.operands)
    []

/-- A program together with use lists. They need not be those of its arenas. -/
structure IndexedProgram extends Program where
  uses : UseLists := []

/-- A program with its own use lists. -/
def Program.index (p : Program) : IndexedProgram :=
  { p with uses := p.useLists }

end HotFields
