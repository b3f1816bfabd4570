import HotFields.Log

namespace HotFields

/-- Where a run gets the time from. -/
structure Clock (m : Type → Type) where
  /-- Computes a value and tells how many nanoseconds that took. -/
  measure : {α : Type} → (Unit → α) → m (α × Nat)
  /-- The nanoseconds since the start of the run. -/
  sinceStart : m Nat

/-- A clock that stands still. -/
def Clock.stopped : Clock Id where
  measure f := (f (), 0)
  sinceStart := (0 : Nat)

/-- A phase that is over. -/
structure Phase where
  name : String
  nanoseconds : Nat
  deriving DecidableEq

/-- Phases in the order recorded. -/
abbrev Phases := List Phase

namespace Phases

/-- Runs a phase and records it. -/
def record {m : Type → Type} [Monad m] {α : Type} (clock : Clock m) (phases : Phases)
    (name : String) (f : Unit → α) : m (α × Phases) := do
  let (a, nanoseconds) ← clock.measure f
  return (a, phases ++ [{ name, nanoseconds }])

def total (phases : Phases) : Nat :=
  phases.foldl (fun n phase => n + phase.nanoseconds) 0

/-- A time in microseconds. -/
def elapsedField (nanoseconds : Nat) : String × String :=
  ("elapsed_us", Nat.repr (nanoseconds / 1000))

/-- An entry for every phase, and one for all of them. -/
def summary (phases : Phases) : Log :=
  phases.map (fun phase =>
    { level := .info, source := .timing, message := "phase timing",
      fields := [("phase", phase.name), elapsedField phase.nanoseconds] }) ++
  [{ level := .info, source := .timing, message := "total",
     fields := [elapsedField phases.total] }]

end Phases

end HotFields
