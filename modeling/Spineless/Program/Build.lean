import Spineless.Program

/-!
# Writing programs by hand

Short names for the terms of the language. Where an identifier is expected a string may stand, which
is then its own key.
-/

namespace Spineless.Build

/-- A name stands for the identifier whose key it is. -/
instance : Coe String Ident := ⟨Ident.ofName⟩

/-- A variable as an argument. -/
def var (x : Ident) : Arg := .var x

/-- The token for the state of the world, as an argument. -/
def realWorld : Arg := .var .realWorld

/-- The token for no value, as an argument. -/
def void : Arg := .var .void

/-- A call of a function. -/
def app (callee : Ident) (args : List Arg) : Expr := .app callee args

/-- A variable on its own: a call without arguments. -/
def varExpr (x : Ident) : Expr := app x []

/-- A primitive operation with one result. -/
def op (name : String) (args : List Arg) (rep : Rep) : Expr := .opApp name args (.single rep) none

/-- An alternative for a constructor. -/
def alt (con : DataCon) (binders : List Ident) (rhs : Expr) : Alt := ⟨.data con, binders, rhs⟩

/-- An alternative for a literal. -/
def altLit (l : Lit) (rhs : Expr) : Alt := ⟨.lit l, [], rhs⟩

/-- The alternative of an unboxed tuple. -/
def altTuple (binders : List Ident) (rhs : Expr) : Alt := ⟨.default, binders, rhs⟩

/-- The alternative that matches anything. -/
def altDefault (rhs : Expr) : Alt := ⟨.default, [], rhs⟩

/-- A closure over listed variables. -/
def closure (freeVars params : List Ident) (body : Expr) : Rhs := .closure freeVars ⟨params, body⟩

/-- A closure without parameters. -/
def thunk (freeVars : List Ident) (body : Expr) : Rhs := closure freeVars [] body

/-- A local binding of one variable. -/
def letIn (x : Ident) (rhs : Rhs) (body : Expr) : Expr := .letIn (.nonRec x rhs) body

/-- A local recursive group. -/
def letRec (pairs : List (Ident × Rhs)) (body : Expr) : Expr := .letIn (.group pairs) body

/-- A top-level binding of one variable. -/
def top (x : Ident) (rhs : Rhs) : Binding := .nonRec x rhs

end Spineless.Build
