import Spineless.PrimOp.Call

/-!
# Mutable and synchronising variables

A mutable variable always holds a value. A synchronising variable is a one-place buffer: taking
from an empty one and putting into a full one would have to wait, and there is nobody to wait for.
-/

namespace Spineless.PrimOp

/-- The operations on mutable variables. -/
inductive MutVarOp where
  | new | read | write

namespace MutVarOp

/-- The names that the family lists. -/
def names : List String := ["newMutVar#", "readMutVar#", "writeMutVar#", "atomicWriteMutVar#"]

/-- The operation that a name is matched with. -/
def ofName? : String → Option MutVarOp
  | "newMutVar#" => some new
  | "readMutVar#" => some read
  | "writeMutVar#" | "atomicWriteMutVar#" => some write
  | _ => none

/-- Answers a call. -/
def run (op : MutVarOp) (call : Call) : Exec Answer :=
  match op, call.args with
  | new, [value, .void] => do .answer (.mutVar (← Exec.newMutVar value))
  | read, [.mutVar h, .void] => do .answer (← Exec.readMutVar h)
  | write, [.mutVar h, value, .void] => do
    Exec.writeMutVar h value
    .noValues
  | _, _ => .declined

end MutVarOp

/-- The family of operations on mutable variables. -/
def mutVarHandler : Handler := .ofNames "MutVar" MutVarOp.names MutVarOp.ofName? MutVarOp.run

/-- The operations on synchronising variables. -/
inductive MVarOp where
  | new | take | put | read | tryTake | tryPut | tryRead | isEmpty

namespace MVarOp

/-- The names that the family lists. -/
def names : List String := [
  "newMVar#", "takeMVar#", "putMVar#", "readMVar#", "tryTakeMVar#", "tryPutMVar#", "tryReadMVar#",
  "isEmptyMVar#"]

/-- The operation that a name is matched with. -/
def ofName? : String → Option MVarOp
  | "newMVar#" => some new
  | "takeMVar#" => some take
  | "readMVar#" => some read
  | "putMVar#" => some put
  | "tryTakeMVar#" => some tryTake
  | "tryReadMVar#" => some tryRead
  | "tryPutMVar#" => some tryPut
  | "isEmptyMVar#" => some isEmpty
  | _ => none

/-- The values of an attempt that found a value, or found none. -/
def attempt : Option Atom → List Atom
  | some value => [.ofBool true, value]
  | none => [.ofBool false, .void]

/-- Fails because the call would have to wait. -/
def block {α : Type} (call : Call) (h : Handle) : Exec α := Exec.fail (.wouldBlock call.name h)

/-- Answers a call. -/
def run (op : MVarOp) (call : Call) : Exec Answer :=
  match op, call.args with
  | new, [.void] => do .answer (.mvar (← Exec.newMVar))
  | take, [.mvar h, .void] => do
    match ← Exec.readMVar h with
    | some value =>
      Exec.writeMVar h none
      .answer value
    | none => block call h
  | read, [.mvar h, .void] => do
    match ← Exec.readMVar h with
    | some value => .answer value
    | none => block call h
  | put, [.mvar h, value, .void] => do
    match ← Exec.readMVar h with
    | some _ => block call h
    | none =>
      Exec.writeMVar h (some value)
      .noValues
  | tryTake, [.mvar h, .void] => do
    let found ← Exec.readMVar h
    if found.isSome then Exec.writeMVar h none
    pure (some (attempt found))
  | tryRead, [.mvar h, .void] => do pure (some (attempt (← Exec.readMVar h)))
  | tryPut, [.mvar h, value, .void] => do
    let found ← Exec.readMVar h
    if found.isNone then Exec.writeMVar h (some value)
    .answer (.ofBool found.isNone)
  | isEmpty, [.mvar h, .void] => do .answer (.ofBool (← Exec.readMVar h).isNone)
  | _, _ => .declined

end MVarOp

/-- The family of operations on synchronising variables. -/
def mvarHandler : Handler := .ofNames "MVar" MVarOp.names MVarOp.ofName? MVarOp.run

end Spineless.PrimOp
