import Spineless.Machine.Run
import Spineless.PrimOp.Standard

/-!
# Machines

A machine is a state, a registry of primitive operations, limits, and the entry of the program
loaded last. It can load programs, run the entry, evaluate expressions and force atoms; each of
these leaves the scope and the control stack as they were, whether it succeeds or not.
-/

namespace Spineless

/-- A machine. -/
structure Machine where
  /-- What runs change. -/
  state : State
  /-- The primitive operations. -/
  registry : Registry
  /-- The limits. -/
  config : Config
  /-- The entry of the loaded program. -/
  entry : Option Ident := none
  /-- Transitions of the most recent run that started on an empty stack. -/
  steps : Nat := 0
deriving Inhabited

namespace Machine

/-- A fresh machine with chosen primitive operations. -/
def withRegistry (config : Config) (registry : Registry) : Machine where
  state := .ofConfig config
  registry := registry
  config := config

/-- A fresh machine with the standard primitive operations. -/
def new (config : Config) (host : Host := .usual) : Machine :=
  withRegistry config (.standard host)

/-- An action on the state, as an action on the machine. -/
def onState {α : Type} (action : Exec α) : EStateM Fault Machine α := fun m =>
  match action m.state with
  | .ok a state => .ok a { m with state }
  | .error e state => .error e { m with state }

/-- Allocates a program's top-level bindings and remembers its entry. -/
def load (p : Program) : EStateM Fault Machine Unit := do
  onState (Exec.allocateGlobals p.pairs)
  modify fun m => { m with entry := some p.entry }

/-- Runs a piece of work in a scope of its own, for at most `fuel` transitions. The scope of the
caller is restored on either outcome. -/
def runScoped (fuel : Nat) (name : Ident) (env : Env) (code : Code) (m : Machine) :
    Option (Outcome Machine (List Atom)) :=
  let base := m.state.stack.depth
  let start := if base = 0 then 0 else m.steps
  let finish (steps : Nat) (s : State) : Machine :=
    { m with state := s.restoreScope m.state.env m.state.trace, steps }
  match follow m.registry m.config.maxSteps base fuel code start (m.state.enterScope name env) with
  | none => none
  | some (steps, outcome) =>
    match unwind base outcome with
    | .ok atoms s => some (.ok atoms (finish steps s))
    | .error e s => some (.error e (finish steps s))

/-- Evaluates an expression in an environment. -/
def eval (fuel : Nat) (name : Ident) (env : Env) (e : Expr) (m : Machine) :
    Option (Outcome Machine (List Atom)) :=
  m.runScoped fuel name env (.eval e)

/-- Runs the entry of the loaded program to weak head normal form. -/
def runEntry (fuel : Nat) (m : Machine) : Option (Outcome Machine (List Atom)) :=
  match m.entry with
  | none => some (.error { cause := .noProgramLoaded } m)
  | some entry =>
    match onState (Exec.resolve entry) m with
    | .error e m => some (.error e m)
    | .ok atom m => m.runScoped fuel entry .empty (.enter atom)

/-- Loads a program and runs its entry. -/
def runProgram (fuel : Nat) (p : Program) (m : Machine) : Option (Outcome Machine (List Atom)) :=
  match load p m with
  | .error e m => some (.error e m)
  | .ok _ m => m.runEntry fuel

/-- The scope in which atoms are forced. -/
def forceScope : Ident := ⟨"force", "<force>"⟩

/-- Evaluates an atom to weak head normal form: a thunk is evaluated and updated, anything else
comes back as it is. -/
def force (fuel : Nat) (a : Atom) (m : Machine) : Option (Outcome Machine Atom) :=
  match m.runScoped fuel forceScope m.state.env (.enter a) with
  | none => none
  | some (.error e m) => some (.error e m)
  | some (.ok atoms m) =>
    match atoms with
    | [value] => some (.ok value m)
    | _ => some (onState (Exec.fail (.primOpShape "force" (.notOneValue atoms.length))) m)

/-- The text of a result: an object is shown with its fields, but not what they refer to. -/
def render (m : Machine) (a : Atom) : String :=
  match a with
  | .ptr addr =>
    match m.state.object? addr with
    | some object => object.summary
    | none => "<dangling " ++ Addr.text addr ++ ">"
  | _ => a.text

end Machine

end Spineless
