import Spineless.PrimOp.Call

/-!
# Threads, weak pointers and stable pointers

There is no scheduler: the current thread is what the state says, and weak pointers keep their
target for ever.
-/

namespace Spineless.PrimOp

/-- The operations on threads, weak pointers and stable pointers. -/
inductive ConcurrencyOp where
  | myThread | makeWeak | noDuplicate | makeStable | derefStable

namespace ConcurrencyOp

/-- The names that the family lists. -/
def names : List String := [
  "myThreadId#", "mkWeakNoFinalizer#", "noDuplicate#", "makeStablePtr#", "deRefStablePtr#"]

/-- The operation that a name is matched with. -/
def ofName? : String → Option ConcurrencyOp
  | "myThreadId#" => some myThread
  | "mkWeakNoFinalizer#" => some makeWeak
  | "noDuplicate#" => some noDuplicate
  | "makeStablePtr#" => some makeStable
  | "deRefStablePtr#" => some derefStable
  | _ => none

/-- Answers a call. -/
def run (op : ConcurrencyOp) (call : Call) : Exec Answer :=
  match op, call.args with
  | myThread, [.void] => do .answer (.thread (← get).thread)
  | makeWeak, [_, _, .void] => do .answer (.weak (← Exec.newWeak))
  | noDuplicate, [.void] => .noValues
  | makeStable, [value, .void] => .answer (.stable value)
  | derefStable, [.stable inner, .void] => .answer inner
  | _, _ => .declined

end ConcurrencyOp

/-- The family of operations on threads, weak pointers and stable pointers. -/
def concurrencyHandler : Handler :=
  .ofNames "Concurrency" ConcurrencyOp.names ConcurrencyOp.ofName? ConcurrencyOp.run

end Spineless.PrimOp
