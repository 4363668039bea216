import Spineless.Env
import Spineless.Program

/-!
# Heap objects

A constructor, a closure, or a blackhole that stands over a thunk while the thunk is being
evaluated. How many arguments a closure still misses tells a thunk, a function and a partial
application apart.
-/

namespace Spineless

/-- A closure: code, the variables that it captured, and the arguments supplied so far. -/
structure Closure where
  /-- The binder that the closure was allocated for. -/
  name : Ident
  /-- Parameters and code. -/
  lambda : Lambda
  /-- The captured variables. -/
  env : Env
  /-- The arguments supplied so far. -/
  args : List Atom
  /-- How many arguments are still missing. -/
  missing : Nat
deriving Inhabited

namespace Closure

/-- A closure without any arguments yet. -/
def ofLambda (name : Ident) (lambda : Lambda) (env : Env) : Closure :=
  ⟨name, lambda, env, [], lambda.arity⟩

/-- A closure that misses no argument is evaluated by entering it. -/
def isThunk (c : Closure) : Bool := c.missing == 0

/-- A closure that misses arguments and was given none is a function. -/
def isFunction (c : Closure) : Bool := 0 < c.missing && c.args.isEmpty

/-- A closure that misses arguments and was given some is a partial application. -/
def isPartial (c : Closure) : Bool := 0 < c.missing && !c.args.isEmpty

end Closure

/-- An object on the heap. -/
inductive Object where
  /-- A saturated constructor. -/
  | con (con : DataCon) (args : List Atom)
  /-- A thunk, a function or a partial application. -/
  | closure (c : Closure)
  /-- Stands over an object whose evaluation is under way. -/
  | blackhole (covered : Object)
deriving Inhabited

/-- The five shapes of heap objects. -/
inductive Shape where
  | constructor | thunk | function | partialApplication | blackhole
deriving DecidableEq

/-- The word for a shape. -/
def Shape.text : Shape → String
  | .constructor => "constructor"
  | .thunk => "thunk"
  | .function => "function"
  | .partialApplication => "partial application"
  | .blackhole => "blackhole"

/-- The shape of a closure. -/
def Closure.shape (c : Closure) : Shape :=
  if c.isThunk then .thunk else if c.isFunction then .function else .partialApplication

namespace Object

/-- The shape of an object. -/
def shape : Object → Shape
  | .con _ _ => .constructor
  | .closure c => c.shape
  | .blackhole _ => .blackhole

/-- The closure in an object that is one. -/
def closure? : Object → Option Closure
  | .closure c => some c
  | _ => none

/-- The text of an object: a constructor with its fields, or the shape in angle brackets. -/
def text : Object → String
  | .con k args => " ".intercalate (k.name :: args.map Atom.text)
  | .closure c =>
    "<" ++ c.shape.text ++ " " ++ c.name.name ++ " " ++ toString c.args.length ++ "/" ++
      toString (c.args.length + c.missing) ++ ">"
  | .blackhole covered => "<blackhole over " ++ covered.shape.text ++ ">"

/-- The text of an object that a result refers to: fields are shown, but not what they refer to. -/
def summary : Object → String
  | .con k [] => k.name
  | .con k args => "(" ++ " ".intercalate (k.name :: args.map Atom.text) ++ ")"
  | .closure c => "<" ++ c.shape.text ++ " " ++ c.name.name ++ ">"
  | .blackhole _ => "<" ++ Shape.blackhole.text ++ ">"

end Object

end Spineless
