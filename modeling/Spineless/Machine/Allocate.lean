import Spineless.State

/-!
# Arguments and allocation

Arguments become atoms from left to right. A closure captures exactly its listed variables. The
members of a recursive group get their addresses before any of them is built, so that each can
capture every other; if one of them cannot be built, the addresses stay handed out.
-/

namespace Spineless

/-- The atom of a literal that is no string. -/
def Lit.atom? : Lit → Option Atom
  | .int n => some (.int n)
  | .word n => some (.word n)
  | .char c => some (.char c)
  | .float x => some (.float x)
  | .double x => some (.double x)
  | .nullAddr => some .nullAddr
  | .string _ => none

namespace Exec

/-- The atom of a literal; a string is entered into the table of literals. -/
def literal : Lit → Exec Atom
  | .string bytes => do return .str (← intern bytes)
  | l => pure (l.atom?.getD .void)

/-- The atom of an argument. -/
def argument : Arg → Exec Atom
  | .var x => resolve x
  | .lit l => literal l

/-- The atoms of several arguments. -/
def arguments (args : List Arg) : Exec (List Atom) := args.mapM argument

/-- The environment of the listed variables. -/
def capture (freeVars : List Ident) : Exec Env :=
  freeVars.foldlM (fun env x => return env.bind x (← resolve x)) .empty

/-- The heap object of a right-hand side in the current scope. -/
def build (name : Ident) : Rhs → Exec Object
  | .closure freeVars lambda => do return .closure (.ofLambda name lambda (← capture freeVars))
  | .con con args => do return .con con (← arguments args)

/-- Hands out an address for every member of a group and makes it known through `bind`. -/
def declare (bind : Ident → Atom → State → State) (pairs : List (Ident × Rhs)) :
    Exec (List (Addr × Ident × Rhs)) :=
  pairs.mapM fun (x, rhs) => do
    let addr ← reserve
    modify (bind x (.ptr addr))
    return (addr, x, rhs)

/-- Builds the declared members one after the other. -/
def define (build : Ident → Rhs → Exec Object) (members : List (Addr × Ident × Rhs)) : Exec Unit :=
  members.forM fun (addr, x, rhs) => do store addr (← build x rhs)

/-- Allocates a local binding. -/
def allocateBinding : Binding → Exec Unit
  | .nonRec x rhs => do
    let addr ← allocate (← build x rhs)
    modify (·.bind x (.ptr addr))
  | .group pairs => do
    define build (← declare (fun x a s => s.bind x a) pairs)

/-- Allocates the top-level bindings of a program. Each right-hand side is built in a scope of its
own, in which only top-level binders are known. -/
def allocateGlobals (pairs : List (Ident × Rhs)) : Exec Unit := do
  let members ← declare (fun x a s => s.bindGlobal x a) pairs
  define (fun x rhs => within x .empty (build x rhs)) members

end Exec

end Spineless
