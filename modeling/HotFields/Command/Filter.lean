import HotFields.Log

namespace HotFields.Log

/-- Entries from sources whose name begins with the target, or from all sources, are shown from a level on. Without a level
none of them is. -/
structure Directive where
  target : Option String
  least : Option Level

namespace Directive

def concerns (d : Directive) (source : Source) : Bool :=
  match d.target with
  | none => true
  | some target => source.name.startsWith target

/-- How narrow a directive is: the longer its target the narrower. -/
def weight (d : Directive) : Nat :=
  match d.target with
  | none => 0
  | some target => target.utf8ByteSize + 1

def admits (d : Directive) (level : Level) : Bool :=
  match d.least with
  | none => false
  | some least => least.rank ≤ level.rank

/-- A level by its name in any case or by its number, or `off`. -/
def threshold? (text : String) : Option (Option Level) :=
  match text.map Char.toLower with
  | "off" | "0" => some none
  | "error" | "1" => some (some .error)
  | "warn" | "2" => some (some .warn)
  | "info" | "3" => some (some .info)
  | "debug" | "4" => some (some .debug)
  | "trace" | "5" => some (some .trace)
  | _ => none

/-- Targets begin with an ASCII letter, a digit, or one of three signs. -/
def beginsTarget (c : Char) : Bool :=
  c.isAlphanum || c = '-' || c = ':' || c = '_'

/-- Reads a directive: a threshold for all sources, a target with a threshold, or a target of which everything is shown.
Conditions on spans and fields, which stand in brackets, are not among the directives that are read. -/
def ofText? (text : String) : Option Directive :=
  let chars := text.trimAscii.toString.toList
  if !(chars.head?.any beginsTarget) || '[' ∈ chars then none
  else
    let word := String.ofList (chars.takeWhile (· ≠ '='))
    match chars.dropWhile (· ≠ '=') with
    | [] =>
      match threshold? word with
      | some least => some ⟨none, least⟩
      | none => some ⟨some word, some .trace⟩
    | [_] => some ⟨some word, some .trace⟩
    | _ :: level => (threshold? (String.ofList level)).map (Directive.mk (some word))

end Directive

/-- Which entries are shown: directives in the order given. -/
structure Filter where
  directives : List Directive

namespace Filter

/-- What is shown if nothing is asked for. -/
def standard : Filter := ⟨[⟨some "heatmap", some .info⟩]⟩

/-- The directive that decides on a source: the narrowest that concerns it, and of equal ones the last. -/
def decisive (f : Filter) (source : Source) : Option Directive :=
  f.directives.foldl
    (fun best d => if d.concerns source && best.all (·.weight ≤ d.weight) then some d else best) none

def shows (f : Filter) (e : Entry) : Bool :=
  (f.decisive e.source).any (·.admits e.level)

/-- Reads directives between commas. One that cannot be read spoils them all. If there is none, errors are shown. -/
def ofText? (text : String) : Option Filter :=
  match (text.splitOn ",").filter (· ≠ "") with
  | [] => some ⟨[⟨none, some .error⟩]⟩
  | words => (words.mapM Directive.ofText?).map Filter.mk

/-- The filter that a text asks for. -/
def ofText (text : Option String) : Filter :=
  (text.bind ofText?).getD standard

end Filter

end HotFields.Log
