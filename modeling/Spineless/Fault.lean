import Spineless.Object

/-!
# Faults

What can go wrong in a run, as data, and the wording of each cause in one place. A fault is a cause
with the trace of binders under evaluation when it arose.
-/

namespace Spineless

/-- The object spaces that are addressed by handles. -/
inductive Space where
  | mvar | array | mutableArray | smallArray | smallMutableArray | mutVar | byteArray
deriving DecidableEq

/-- The name of a space. -/
def Space.text : Space → String
  | .mvar => "MVar"
  | .array => "Array"
  | .mutableArray => "MutableArray"
  | .smallArray => "SmallArray"
  | .smallMutableArray => "SmallMutableArray"
  | .mutVar => "MutVar"
  | .byteArray => "ByteArray"

/-- What stood where a function was expected. -/
inductive NonFunction where
  /-- Values other than one heap reference. -/
  | values (atoms : List Atom)
  /-- An object that cannot be applied. -/
  | object (shape : Shape) (addr : Addr)

/-- The text of what stood where a function was expected. -/
def NonFunction.text : NonFunction → String
  | .values atoms => "[" ++ Atom.textList atoms ++ "]"
  | .object shape addr => shape.text ++ " at " ++ Addr.text addr

/-- What no alternative matched. -/
inductive Unmatched where
  /-- A constructor. -/
  | con (name : String)
  /-- Other values. -/
  | values (atoms : List Atom)

/-- The text of what no alternative matched. -/
def Unmatched.text : Unmatched → String
  | .con name => name
  | .values atoms => Atom.textList atoms

/-- Why a primitive operation refused arguments of the right sorts. -/
inductive Misfit where
  /-- The divisor is zero. -/
  | divisionByZero
  /-- The number is no code point. -/
  | notACodePoint (n : Int)
  /-- An index or a size is negative. -/
  | negative (n : Int)
  /-- The array would be too large. -/
  | tooLarge (size : Nat)
  /-- A range reaches beyond an array. -/
  | rangeOutside (start count size : Nat)
  /-- A range reaches beyond a byte array. -/
  | bytesOutside (start count size : Nat)
  /-- An element lies beyond a byte array. -/
  | elementOutside (index size : Nat)
  /-- A byte array cannot grow. -/
  | cannotGrow (size wanted : Nat)
  /-- The type of the result is not known. -/
  | unknownTyCon
  /-- The type has no such constructor. -/
  | noNullaryCon (tycon : String) (tag : Int)
  /-- A string pointer would leave the range of offsets. -/
  | badOffset (delta : Int) (offset : Nat)
  /-- A string pointer points behind its literal. -/
  | byteOutside (offset id : Nat)
  /-- Something other than one value came back. -/
  | notOneValue (count : Nat)

/-- The wording of a refusal. -/
def Misfit.message : Misfit → String
  | .divisionByZero => "division by zero"
  | .notACodePoint n => toString n ++ " is not a code point"
  | .negative n => "negative index or size " ++ toString n
  | .tooLarge size => "cannot allocate " ++ toString size ++ " elements"
  | .rangeOutside start count size =>
    "range " ++ toString start ++ "+" ++ toString count ++ " outside array of size " ++
      toString size
  | .bytesOutside start count size =>
    "bytes " ++ toString start ++ "+" ++ toString count ++ " outside byte array of " ++
      toString size ++ " bytes"
  | .elementOutside index size =>
    "element " ++ toString index ++ " outside byte array of " ++ toString size ++ " bytes"
  | .cannotGrow size wanted =>
    "cannot grow " ++ toString size ++ " bytes to " ++ toString wanted
  | .unknownTyCon => "result type constructor unknown"
  | .noNullaryCon tycon tag => tycon ++ " has no nullary constructor with tag " ++ toString tag
  | .badOffset delta offset =>
    "offset " ++ toString delta ++ " from " ++ toString offset ++ " is negative"
  | .byteOutside offset id =>
    "byte " ++ toString offset ++ " of string literal " ++ toString id ++ " is out of range"
  | .notOneValue count => "expected one value, got " ++ toString count

/-- The causes of failure. -/
inductive Cause where
  /-- A variable is not in scope. -/
  | unboundVariable (x : Ident)
  /-- There is no object at an address. -/
  | unknownAddress (addr : Addr)
  /-- An object should have been a constructor. -/
  | notAConstructor (addr : Addr) (found : Shape)
  /-- A value should have been a function. -/
  | notAFunction (found : NonFunction)
  /-- There is no object behind a handle. -/
  | unknownHandle (space : Space) (handle : Handle)
  /-- No alternative matched. -/
  | nonExhaustiveMatch (binder : Ident) (scrutinee : Unmatched)
  /-- No family answers a primitive operation. -/
  | unknownPrimOp (name : String) (arity : Nat)
  /-- A thunk needs its own value. -/
  | blackholeEntered (addr : Addr)
  /-- A thunk returned something other than one heap reference. -/
  | invalidUpdate (target : Addr) (found : List Atom)
  /-- The control stack is full. -/
  | stackOverflow (limit : Nat)
  /-- The step budget is used up. -/
  | stepLimitExceeded (limit : Nat)
  /-- Two families claim one operation. -/
  | duplicatePrimOp (name : String)
  /-- A primitive operation refused its arguments. -/
  | primOpShape (name : String) (misfit : Misfit)
  /-- An operation on a synchronising variable would have to wait. -/
  | wouldBlock (op : String) (handle : Handle)
  /-- There is no program to run. -/
  | noProgramLoaded

/-- The wording of a cause. -/
def Cause.message : Cause → String
  | .unboundVariable x => "unbound variable: " ++ x.key
  | .unknownAddress addr => "unknown heap address: " ++ Addr.text addr
  | .notAConstructor addr found =>
    "expected a constructor at " ++ Addr.text addr ++ ", found a " ++ found.text
  | .notAFunction found => "expected a function, found " ++ found.text
  | .unknownHandle space handle => "unknown " ++ space.text ++ " handle: " ++ toString handle
  | .nonExhaustiveMatch binder scrutinee =>
    "non-exhaustive match on " ++ binder.key ++ ": no alternative for " ++ scrutinee.text
  | .unknownPrimOp name arity =>
    "unknown primitive operation: " ++ name ++ " with " ++ toString arity ++ " argument(s)"
  | .blackholeEntered addr => "blackhole entered at " ++ Addr.text addr ++ ": evaluation cycle"
  | .invalidUpdate target found =>
    "update of " ++ Addr.text target ++ " with a non-heap result: [" ++ Atom.textList found ++ "]"
  | .stackOverflow limit => "control stack overflow: depth exceeded " ++ toString limit
  | .stepLimitExceeded limit => "step limit exceeded: " ++ toString limit
  | .duplicatePrimOp name => "primitive operation " ++ name ++ " is claimed twice"
  | .primOpShape name misfit => "primitive operation " ++ name ++ ": " ++ misfit.message
  | .wouldBlock op handle => op ++ " on MVar " ++ toString handle ++ " would block"
  | .noProgramLoaded => "no program loaded"

/-- A cause with the binders under evaluation, outermost first. -/
structure Fault where
  /-- What went wrong. -/
  cause : Cause
  /-- The binders under evaluation. -/
  trace : List Ident := []

/-- The lines that show a trace; an empty trace shows nothing. -/
def traceText (trace : List Ident) : String :=
  if trace.isEmpty then ""
  else
    "\nEvaluation stack (innermost last):" ++
      String.join (trace.zipIdx.map fun (x, i) => "\n  #" ++ toString i ++ ": " ++ x.key)

namespace Fault

/-- Attaches a trace, unless the fault already has one. -/
def withTrace (f : Fault) (trace : List Ident) : Fault :=
  if f.trace.isEmpty then { f with trace } else f

/-- The text of a fault: its cause, then the trace. -/
def message (f : Fault) : String := f.cause.message ++ traceText f.trace

end Fault

end Spineless
