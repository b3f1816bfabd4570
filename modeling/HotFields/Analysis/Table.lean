import HotFields.Analysis.Access

namespace HotFields

/-- Addition that stops at the largest 64 bit number. -/
def saturatingAdd (a b : UInt64) : UInt64 :=
  if a.toNat + b.toNat < UInt64.size then a + b else 0xFFFFFFFFFFFFFFFF

namespace Ascending

variable {κ α : Type} [LT κ] [DecidableLT κ] [DecidableEq κ]

/-- The value of a key. -/
def find? (key : κ) (entries : List (κ × α)) : Option α :=
  entries.lookup key

/-- Replaces the value of a key, or puts a first value at its place in the order. -/
def alter (key : κ) (f : Option α → α) : List (κ × α) → List (κ × α)
  | [] => [(key, f none)]
  | (k, v) :: rest =>
    if key < k then (key, f none) :: (k, v) :: rest
    else if key = k then (k, f (some v)) :: rest
    else (k, v) :: alter key f rest

end Ascending

/-- Counts by field, fields ascending. -/
abbrev FieldCounts := List (UInt64 × UInt64)

/-- Field counts by structure name, names ascending. Counts stop growing at the largest 64 bit number. -/
structure Table where
  buckets : List (String × FieldCounts) := []
  deriving DecidableEq

namespace Table

def empty : Table := {}

def isEmpty (t : Table) : Bool :=
  t.buckets.isEmpty

/-- Adds to the count of a field. -/
def add (t : Table) (owner : String) (field amount : UInt64) : Table :=
  ⟨Ascending.alter owner
    (fun counts => Ascending.alter field
      (fun count => saturatingAdd (count.getD 0) amount) (counts.getD []))
    t.buckets⟩

/-- Counts one more access of a field. -/
def increment (t : Table) (owner : String) (field : UInt64) : Table :=
  t.add owner field 1

/-- The counts of a structure, if it has any. -/
def fields? (t : Table) (owner : String) : Option FieldCounts :=
  Ascending.find? owner t.buckets

/-- The count of a field. -/
def count (t : Table) (owner : String) (field : UInt64) : UInt64 :=
  ((t.fields? owner).bind (Ascending.find? field)).getD 0

/-- The structure names, ascending. -/
def structures (t : Table) : List String :=
  t.buckets.map Prod.fst

/-- The sum of all counts. -/
def total (t : Table) : UInt64 :=
  (t.buckets.flatMap fun bucket => bucket.2.map Prod.snd).foldl saturatingAdd 0

/-- Adds every count of another table. -/
def merge (t other : Table) : Table :=
  other.buckets.foldl
    (fun t (owner, counts) => counts.foldl (fun t (field, n) => t.add owner field n) t) t

/-- Joins two tables. Nothing has to be added to an empty one. -/
def merged (t other : Table) : Table :=
  if t.isEmpty then other else t.merge other

/-- Counts an access. -/
def record (t : Table) (a : Access) : Table :=
  t.increment a.owner a.field

/-- The table of a list of accesses. -/
def ofAccesses (accesses : List Access) : Table :=
  accesses.foldl record empty

end Table

instance : AccessSink Table where
  record := Table.record

/-- A table that several clients update, one step at a time. -/
structure SharedTable where
  contents : Table := {}

namespace SharedTable

def increment (s : SharedTable) (owner : String) (field : UInt64) : SharedTable :=
  ⟨s.contents.increment owner field⟩

def record (s : SharedTable) (a : Access) : SharedTable :=
  s.increment a.owner a.field

/-- Adds the counts of a client's own table. -/
def absorb (s : SharedTable) (part : Table) : SharedTable :=
  ⟨s.contents.merge part⟩

/-- One step of a client. -/
inductive Step where
  | increment (owner : String) (field : UInt64)
  | record (a : Access)
  | absorb (part : Table)

def step (s : SharedTable) : Step → SharedTable
  | .increment owner field => s.increment owner field
  | .record a => s.record a
  | .absorb part => s.absorb part

end SharedTable

instance : AccessSink SharedTable where
  record := SharedTable.record

end HotFields
