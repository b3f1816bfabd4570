namespace HotFields

/-- How an attributed address was reached. -/
inductive Origin where
  /-- An address computation of its own. -/
  | address
  /-- A constant address that a load reads. -/
  | load
  /-- A constant address that a store writes. -/
  | store
  deriving DecidableEq

def Origin.name : Origin → String
  | .address => "address"
  | .load => "load"
  | .store => "store"

/-- One access to a field of a named structure. -/
structure Access where
  owner : String
  field : UInt64
  origin : Origin
  deriving DecidableEq

/-- Something that accesses are recorded in. -/
class AccessSink (σ : Type) where
  record : σ → Access → σ

/-- A list keeps accesses in the order recorded. -/
instance : AccessSink (List Access) where
  record accesses a := accesses ++ [a]

end HotFields
