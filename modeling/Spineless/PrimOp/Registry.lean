import Spineless.PrimOp.Call

/-!
# The registry of primitive operations

The registry maps the name of every operation to the one handler that claims it. A call that no
handler claims, or that its handler declines, goes to a fallback.
-/

namespace Spineless

/-- Handlers, and the owner of every operation by its position among them. -/
structure Registry where
  /-- The handlers in the order of registration. -/
  handlers : Array Handler := #[]
  /-- The position of the handler that claims an operation. -/
  owners : List (String × Nat) := []
deriving Inhabited

namespace Registry

/-- The registry without handlers. -/
def empty : Registry := {}

/-- Whether some handler claims an operation. -/
def claims (r : Registry) (name : String) : Bool := (r.owners.lookup name).isSome

/-- Enters a handler behind the others, as the owner of the names that it lists. -/
def enter (handler : Handler) (r : Registry) : Registry where
  handlers := r.handlers.push handler
  owners := r.owners ++ handler.operations.eraseDups.map (·, r.handlers.size)

/-- Offers a handler to a registry. A handler that claims an operation of another one is refused. -/
def offer (handler : Handler) : EStateM Fault Registry Unit := do
  match handler.operations.find? (← get).claims with
  | some name => throw { cause := .duplicatePrimOp name }
  | none => modify (enter handler)

/-- The registry with a handler added, or why the handler is refused, for a caller who keeps the
registry as it was. -/
def register (r : Registry) (handler : Handler) : Except Fault Registry :=
  match offer handler r with
  | .ok _ r' => .ok r'
  | .error e _ => .error e

/-- The registry after a handler is offered to it, registered or refused. -/
def afterOffer (r : Registry) (handler : Handler) : Registry :=
  match offer handler r with
  | .ok _ r' => r'
  | .error _ r' => r'

/-- The registry to which several handlers are offered in order. -/
def ofHandlers (handlers : List Handler) : Registry := handlers.foldl afterOffer empty

/-- The handler that claims an operation. -/
def owner? (r : Registry) (name : String) : Option Handler :=
  (r.owners.lookup name).bind fun i => r.handlers[i]?

/-- The family that claims an operation. -/
def claimedBy? (r : Registry) (name : String) : Option String := (r.owner? name).map Handler.family

/-- How many operations are claimed. -/
def size (r : Registry) : Nat := r.owners.length

/-- The answer of the handler that claims a call, if there is one and it does not decline. -/
def answer (r : Registry) (call : Call) : Exec Answer :=
  match r.owner? call.name with
  | some handler => handler.evaluate call
  | none => pure none

/-- Evaluates a call, by the fallback if no handler answers. -/
def evaluateWith (r : Registry) (call : Call) (fallback : Call → Exec (List Atom)) :
    Exec (List Atom) := do
  match ← r.answer call with
  | some atoms => pure atoms
  | none => fallback call

/-- The fallback that fails: nothing answers the call. -/
def unknown (call : Call) : Exec (List Atom) :=
  Exec.fail (.unknownPrimOp call.name call.args.length)

/-- Evaluates a call; one that no handler answers is a failure. -/
def evaluate (r : Registry) (call : Call) : Exec (List Atom) := r.evaluateWith call unknown

end Registry

end Spineless
