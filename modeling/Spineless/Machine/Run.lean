import Spineless.Bound
import Spineless.Machine.Step

/-!
# Runs

A run repeats transitions until values return at the depth at which it started. Transitions are
counted, and a budget stops a run that takes more of them. How far a run is followed is an argument:
`none` means that it was still going.
-/

namespace Spineless

/-- The outcome of an action: a value or a fault, and the state in either case. -/
abbrev Outcome (σ α : Type) := EStateM.Result Fault σ α

/-- One more transition; the counter stops at its bound. -/
def tick (steps : Nat) : Nat := min (steps + 1) (Bound.word - 1)

/-- The budget that a number of transitions exceeds. -/
def exceeded? (budget : Option Nat) (steps : Nat) : Option Nat :=
  budget.filter (· < steps)

/-- Follows a run for at most `fuel` transitions, and gives the number of transitions counted and
the outcome. -/
def follow (r : Registry) (budget : Option Nat) (base : Nat) :
    Nat → Code → Nat → State → Option (Nat × Outcome State (List Atom))
  | 0, _, _, _ => none
  | fuel + 1, code, steps, s =>
    let steps := tick steps
    match exceeded? budget steps with
    | some limit => some (steps, .error ⟨.stepLimitExceeded limit, s.trace⟩ s)
    | none =>
      match step r base code s with
      | .ok (.code code) s => follow r budget base fuel code steps s
      | .ok (.done atoms) s => some (steps, .ok atoms s)
      | .error e s => some (steps, .error e s)

/-- The outcome of a run in which a failed run's frames are gone from the stack. -/
def unwind (base : Nat) : Outcome State (List Atom) → Outcome State (List Atom)
  | .ok atoms s => .ok atoms s
  | .error e s => .error e (s.truncateStack base)

end Spineless
