import Spineless.Program
import Spineless.Atom

/-!
# What the machine does next
-/

namespace Spineless

/-- The piece of work in front of the machine. -/
inductive Code where
  /-- Evaluate an expression in the current scope. -/
  | eval (e : Expr)
  /-- Evaluate an atom to weak head normal form. -/
  | enter (a : Atom)
  /-- Hand values to the topmost continuation. -/
  | ret (atoms : List Atom)
deriving Inhabited

/-- The text of an expression's head. -/
def Expr.headText : Expr → String
  | .app callee _ => "app " ++ callee.name
  | .lit _ => "literal"
  | .conApp con _ => "con " ++ con.name
  | .multiVal args => "multi-value/" ++ toString args.length
  | .opApp op _ _ _ => "op " ++ op
  | .case _ binder _ _ => "case " ++ binder.name
  | .letIn _ _ => "let"

/-- The text of a piece of work. -/
def Code.text : Code → String
  | .eval e => "eval " ++ e.headText
  | .enter a => "enter " ++ a.text
  | .ret atoms => "return " ++ toString atoms.length ++ " value(s)"

end Spineless
