import Spineless.Config
import Spineless.Fault
import Spineless.Stack
import Spineless.StringTable

/-!
# The state of a machine

Everything that a run changes: the heap, the current and the top-level environment, the diagnostic
trace, the control stack, the string literals and the auxiliary object spaces. An action on the
state may fail, and what it changed before it failed stays changed: `Exec` keeps the state on both
outcomes.
-/

namespace Spineless

/-- The contents of a byte array. -/
structure Bytes where
  /-- The bytes. -/
  bytes : Array UInt8
  /-- Whether the storage may not be moved. -/
  pinned : Bool
deriving Inhabited

/-- The four spaces of arrays of atoms. -/
inductive ArrayKind where
  | array | mutableArray | smallArray | smallMutableArray
deriving DecidableEq

/-- The space that an array kind belongs to. -/
def ArrayKind.space : ArrayKind → Space
  | .array => .array
  | .mutableArray => .mutableArray
  | .smallArray => .smallArray
  | .smallMutableArray => .smallMutableArray

/-- The object spaces that are addressed by handles. A handle is an index into its space. -/
structure Spaces where
  /-- Mutable variables. -/
  mutVars : Array Atom := #[]
  /-- Synchronising variables, empty or full. -/
  mvars : Array (Option Atom) := #[]
  /-- Frozen arrays. -/
  arrays : Array (Array Atom) := #[]
  /-- Mutable arrays. -/
  mutableArrays : Array (Array Atom) := #[]
  /-- Frozen small arrays. -/
  smallArrays : Array (Array Atom) := #[]
  /-- Mutable small arrays. -/
  smallMutableArrays : Array (Array Atom) := #[]
  /-- Byte arrays. -/
  byteArrays : Array Bytes := #[]
  /-- How many weak pointers were made. -/
  weakPointers : Nat := 0
deriving Inhabited

/-- The arrays of one kind. -/
def Spaces.arraysOf (s : Spaces) : ArrayKind → Array (Array Atom)
  | .array => s.arrays
  | .mutableArray => s.mutableArrays
  | .smallArray => s.smallArrays
  | .smallMutableArray => s.smallMutableArrays

/-- Changes the arrays of one kind. -/
def Spaces.modifyArrays (s : Spaces) (kind : ArrayKind)
    (f : Array (Array Atom) → Array (Array Atom)) : Spaces :=
  match kind with
  | .array => { s with arrays := f s.arrays }
  | .mutableArray => { s with mutableArrays := f s.mutableArrays }
  | .smallArray => { s with smallArrays := f s.smallArrays }
  | .smallMutableArray => { s with smallMutableArrays := f s.smallMutableArrays }

/-- The state of a machine. -/
structure State where
  /-- The heap by address; a reserved address has no object yet. -/
  heap : Array (Option Object) := #[]
  /-- The current environment. -/
  env : Env := .empty
  /-- The top-level binders. -/
  globals : Env := .empty
  /-- The binders under evaluation, outermost first. -/
  trace : List Ident := []
  /-- The most binders that the trace keeps. -/
  traceLimit : Nat
  /-- The control stack. -/
  stack : Stack := .empty
  /-- The most frames on the control stack. -/
  maxStackDepth : Nat
  /-- The string literals. -/
  strings : StringTable := {}
  /-- The auxiliary object spaces. -/
  spaces : Spaces := {}
  /-- The current thread; the main thread is 0. -/
  thread : Nat := 0
deriving Inhabited

/-- Sizes of the heap, the control stack and the auxiliary spaces. -/
structure Stats where
  heapObjects : Nat
  nextAddr : Nat
  stackDepth : Nat
  mvars : Nat
  arrays : Nat
  mutableArrays : Nat
  smallArrays : Nat
  smallMutableArrays : Nat
  mutVars : Nat
  byteArrays : Nat
deriving DecidableEq

namespace State

/-- The state of a fresh machine. -/
def ofConfig (config : Config) : State where
  traceLimit := config.traceLimit
  maxStackDepth := config.maxStackDepth

/-- The object at an address. -/
def object? (s : State) (addr : Addr) : Option Object := s.heap[addr]?.join

/-- A trace with one more binder; beyond the limit the outermost one is dropped. -/
def extendTrace (limit : Nat) (trace : List Ident) (x : Ident) : List Ident :=
  if limit = 0 then trace
  else if limit ≤ trace.length then trace.drop 1 ++ [x]
  else trace ++ [x]

/-- The state with one more binder in its trace. -/
def pushTrace (s : State) (x : Ident) : State :=
  { s with trace := extendTrace s.traceLimit s.trace x }

/-- The state in the scope of a closure: its environment and a trace that names it. -/
def enterScope (s : State) (name : Ident) (env : Env) : State :=
  { s with env, trace := extendTrace s.traceLimit [] name }

/-- The state with a given environment and trace. -/
def restoreScope (s : State) (env : Env) (trace : List Ident) : State :=
  { s with env, trace }

/-- The state with a binding in the current environment. -/
def bind (s : State) (x : Ident) (atom : Atom) : State := { s with env := s.env.bind x atom }

/-- The state with several bindings in the current environment. -/
def bindAll (s : State) (pairs : List (Ident × Atom)) : State :=
  { s with env := s.env.extend pairs }

/-- The state with a top-level binding. -/
def bindGlobal (s : State) (x : Ident) (atom : Atom) : State :=
  { s with globals := s.globals.bind x atom }

/-- What a variable denotes: nothing for the two tokens, else its binding in the current
environment, else its top-level binding. -/
def lookup? (s : State) (x : Ident) : Option Atom :=
  if x.isToken then some .void else (s.env.get? x).or (s.globals.get? x)

/-- The sizes of the state's parts. -/
def stats (s : State) : Stats where
  heapObjects := s.heap.countP Option.isSome
  nextAddr := s.heap.size
  stackDepth := s.stack.depth
  mvars := s.spaces.mvars.size
  arrays := s.spaces.arrays.size
  mutableArrays := s.spaces.mutableArrays.size
  smallArrays := s.spaces.smallArrays.size
  smallMutableArrays := s.spaces.smallMutableArrays.size
  mutVars := s.spaces.mutVars.size
  byteArrays := s.spaces.byteArrays.size

/-- The state without the frames above a depth. -/
def truncateStack (s : State) (depth : Nat) : State := { s with stack := s.stack.truncate depth }

end State

/-- An action on the state that may fail. The state survives a failure. -/
abbrev Exec := EStateM Fault State

namespace Exec

/-- Fails with a cause and the current trace. -/
def fail {α : Type} (cause : Cause) : Exec α := fun s => .error ⟨cause, s.trace⟩ s

/-- Takes a value, or fails with a cause. -/
def orFail {α : Type} (value : Option α) (cause : Cause) : Exec α :=
  match value with
  | some a => pure a
  | none => fail cause

/-! ## Heap -/

/-- Hands out a fresh address without an object. -/
def reserve : Exec Addr :=
  modifyGet fun s => (s.heap.size, { s with heap := s.heap.push none })

/-- Puts an object at a fresh address. -/
def allocate (object : Object) : Exec Addr :=
  modifyGet fun s => (s.heap.size, { s with heap := s.heap.push (some object) })

/-- Overwrites the object at an address that was handed out. -/
def store (addr : Addr) (object : Object) : Exec Unit := do
  if addr < (← get).heap.size then
    modify fun s => { s with heap := s.heap.setIfInBounds addr (some object) }
  else fail (.unknownAddress addr)

/-- The object at an address. -/
def read (addr : Addr) : Exec Object := do
  orFail ((← get).object? addr) (.unknownAddress addr)

/-- The constructor at an address, with its fields. -/
def readCon (addr : Addr) : Exec (DataCon × List Atom) := do
  match ← read addr with
  | .con con args => pure (con, args)
  | other => fail (.notAConstructor addr other.shape)

/-! ## Scope -/

/-- What a variable denotes. -/
def resolve (x : Ident) : Exec Atom := do
  orFail ((← get).lookup? x) (.unboundVariable x)

/-- Runs an action in another scope and comes back to the present one, on either outcome. -/
def within {α : Type} (name : Ident) (env : Env) (action : Exec α) : Exec α := fun s =>
  let restore (t : State) : State := t.restoreScope s.env s.trace
  match action (s.enterScope name env) with
  | .ok a t => .ok a (restore t)
  | .error e t => .error e (restore t)

/-! ## Control stack -/

/-- Pushes a continuation that resumes in the current scope. -/
def pushFrame (cont : Continuation) : Exec Unit := do
  let s ← get
  if s.maxStackDepth ≤ s.stack.depth then fail (.stackOverflow s.maxStackDepth)
  else modify fun s => { s with stack := s.stack.push ⟨cont, s.env, s.trace⟩ }

/-- Pops the topmost frame; the scope does not change. -/
def popFrame? : Exec (Option Frame) :=
  modifyGet fun s =>
    match s.stack.pop? with
    | none => (none, s)
    | some (frame, rest) => (some frame, { s with stack := rest })

/-! ## String literals -/

/-- A pointer to a string literal. -/
def intern (bytes : List UInt8) : Exec StringPtr :=
  modifyGet fun s =>
    let (p, strings) := s.strings.intern bytes
    (p, { s with strings })

/-! ## Mutable and synchronising variables -/

/-- Changes the auxiliary spaces. -/
def modifySpaces (f : Spaces → Spaces) : Exec Unit :=
  modify fun s => { s with spaces := f s.spaces }

/-- A fresh mutable variable. -/
def newMutVar (value : Atom) : Exec Handle := do
  let h := (← get).spaces.mutVars.size
  modifySpaces fun sp => { sp with mutVars := sp.mutVars.push value }
  pure h

/-- The value of a mutable variable. -/
def readMutVar (h : Handle) : Exec Atom := do
  orFail (← get).spaces.mutVars[h]? (.unknownHandle .mutVar h)

/-- Changes the value of a mutable variable. -/
def writeMutVar (h : Handle) (value : Atom) : Exec Unit := do
  let _ ← readMutVar h
  modifySpaces fun sp => { sp with mutVars := sp.mutVars.setIfInBounds h value }

/-- A fresh, empty synchronising variable. -/
def newMVar : Exec Handle := do
  let h := (← get).spaces.mvars.size
  modifySpaces fun sp => { sp with mvars := sp.mvars.push none }
  pure h

/-- The contents of a synchronising variable. -/
def readMVar (h : Handle) : Exec (Option Atom) := do
  orFail (← get).spaces.mvars[h]? (.unknownHandle .mvar h)

/-- Fills or empties a synchronising variable. -/
def writeMVar (h : Handle) (value : Option Atom) : Exec Unit := do
  let _ ← readMVar h
  modifySpaces fun sp => { sp with mvars := sp.mvars.setIfInBounds h value }

/-! ## Arrays -/

/-- A fresh array of a kind. -/
def newArray (kind : ArrayKind) (elements : Array Atom) : Exec Handle := do
  let h := ((← get).spaces.arraysOf kind).size
  modifySpaces fun sp => sp.modifyArrays kind fun arrays => arrays.push elements
  pure h

/-- The elements of an array. -/
def readArray (kind : ArrayKind) (h : Handle) : Exec (Array Atom) := do
  orFail ((← get).spaces.arraysOf kind)[h]? (.unknownHandle kind.space h)

/-- Changes the elements of an array. -/
def modifyArray (kind : ArrayKind) (h : Handle) (f : Array Atom → Array Atom) : Exec Unit := do
  let _ ← readArray kind h
  modifySpaces fun sp => sp.modifyArrays kind fun arrays => arrays.modify h f

/-- A fresh byte array. -/
def newBytes (bytes : Array UInt8) (pinned : Bool) : Exec Handle := do
  let h := (← get).spaces.byteArrays.size
  modifySpaces fun sp => { sp with byteArrays := sp.byteArrays.push ⟨bytes, pinned⟩ }
  pure h

/-- The contents of a byte array. -/
def readBytes (h : Handle) : Exec Bytes := do
  orFail (← get).spaces.byteArrays[h]? (.unknownHandle .byteArray h)

/-- Changes the bytes of a byte array. -/
def modifyBytes (h : Handle) (f : Array UInt8 → Array UInt8) : Exec Unit := do
  let _ ← readBytes h
  modifySpaces fun sp =>
    { sp with byteArrays := sp.byteArrays.modify h fun b => { b with bytes := f b.bytes } }

/-! ## Threads and weak pointers -/

/-- A fresh weak pointer. -/
def newWeak : Exec Handle := do
  let h := (← get).spaces.weakPointers
  modifySpaces fun sp => { sp with weakPointers := sp.weakPointers + 1 }
  pure h

end Exec

end Spineless
