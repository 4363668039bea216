import Spineless.Ident

/-!
# Programs

The language of the machine, in A-normal form: arguments are variables or literals, only a `letIn`
allocates and only a `case` evaluates. A program is a list of top-level bindings and the binder to
run.
-/

namespace Spineless

/-- A literal. -/
inductive Lit where
  /-- A signed integer. -/
  | int (n : Int64)
  /-- An unsigned integer. -/
  | word (n : UInt64)
  /-- A character. -/
  | char (c : Char)
  /-- A single-precision number. -/
  | float (x : Float32)
  /-- A double-precision number. -/
  | double (x : Float)
  /-- The null address. -/
  | nullAddr
  /-- The bytes of a string, without a terminator. -/
  | string (bytes : List UInt8)
deriving Inhabited

/-- An argument. -/
inductive Arg where
  /-- A variable. -/
  | var (x : Ident)
  /-- A literal. -/
  | lit (l : Lit)
deriving Inhabited

/-- A data constructor. Constructors are matched by name; the tag is the position in the type. -/
structure DataCon where
  /-- The name, by which constructors are matched. -/
  name : String
  /-- The position among the constructors of the type. -/
  tag : Nat
  /-- The number of fields. -/
  arity : Nat
deriving DecidableEq, Inhabited

/-- A type constructor with its data constructors. -/
structure TyCon where
  /-- The name of the type. -/
  name : String
  /-- The constructors of the type. -/
  dataCons : List DataCon
deriving DecidableEq, Inhabited

/-- The first constructor with a given tag. -/
def TyCon.conByTag? (t : TyCon) (tag : Nat) : Option DataCon :=
  t.dataCons.find? (·.tag == tag)

/-- The machine representation of an unboxed value. -/
inductive Rep where
  | void | lifted | unlifted | int | word | char | addr | float | double
deriving DecidableEq, Inhabited

/-- The declared shape of a primitive operation's result. -/
inductive ResultType where
  /-- One value. -/
  | single (rep : Rep)
  /-- Several values. -/
  | unboxedTuple (reps : List Rep)
  /-- A value of unknown type. -/
  | poly
deriving DecidableEq, Inhabited

/-- What a `case` scrutinises. -/
inductive AltType where
  /-- A value of unknown type. -/
  | poly
  /-- An unboxed tuple of the given size. -/
  | multiVal (count : Nat)
  /-- A primitive value. -/
  | prim (rep : Rep)
  /-- A value of an algebraic type. -/
  | alg (tycon : TyCon)
deriving DecidableEq, Inhabited

/-- What an alternative matches. -/
inductive AltCon where
  /-- A constructor. -/
  | data (con : DataCon)
  /-- A literal. -/
  | lit (l : Lit)
  /-- Anything. -/
  | default
deriving Inhabited

mutual

/-- An expression. -/
inductive Expr where
  /-- A variable applied to arguments, possibly none. -/
  | app (callee : Ident) (args : List Arg)
  /-- A literal. -/
  | lit (l : Lit)
  /-- A saturated constructor, allocated on the heap. -/
  | conApp (con : DataCon) (args : List Arg)
  /-- Several values returned at once. -/
  | multiVal (args : List Arg)
  /-- A primitive operation. -/
  | opApp (op : String) (args : List Arg) (resultType : ResultType) (resultTyCon : Option TyCon)
  /-- Evaluation of the scrutinee, then a choice among alternatives. -/
  | case (scrutinee : Expr) (binder : Ident) (altType : AltType) (alts : List Alt)
  /-- Allocation of a binding, then the body. -/
  | letIn (binding : Binding) (body : Expr)

/-- One alternative of a `case`. -/
structure Alt where
  /-- What it matches. -/
  con : AltCon
  /-- The variables bound to the fields. -/
  binders : List Ident
  /-- The expression that is evaluated when it is chosen. -/
  rhs : Expr

/-- The parameters and the code of a closure. -/
structure Lambda where
  /-- The parameters. -/
  params : List Ident
  /-- The code. -/
  body : Expr

/-- The right-hand side of a binding. -/
inductive Rhs where
  /-- A closure over the listed variables. -/
  | closure (freeVars : List Ident) (lambda : Lambda)
  /-- A constructor applied to arguments. -/
  | con (con : DataCon) (args : List Arg)

/-- A binding, of one variable or of a recursive group. -/
inductive Binding where
  /-- One variable, not in scope in its own right-hand side. -/
  | nonRec (x : Ident) (rhs : Rhs)
  /-- A group of variables, all in scope in all their right-hand sides. -/
  | group (pairs : List (Ident × Rhs))

end

instance : Inhabited Expr := ⟨.multiVal []⟩

instance : Inhabited Alt := ⟨⟨.default, [], default⟩⟩

instance : Inhabited Lambda := ⟨⟨[], default⟩⟩

instance : Inhabited Rhs := ⟨.closure [] default⟩

instance : Inhabited Binding := ⟨.group []⟩

/-- The number of parameters. -/
def Lambda.arity (l : Lambda) : Nat := l.params.length

/-- The variables of a binding with their right-hand sides. -/
def Binding.pairs : Binding → List (Ident × Rhs)
  | .nonRec x rhs => [(x, rhs)]
  | .group pairs => pairs

/-- The variables that a binding binds. -/
def Binding.binders (b : Binding) : List Ident := b.pairs.map Prod.fst

/-- A whole program. -/
structure Program where
  /-- The top-level bindings. -/
  bindings : List Binding
  /-- The binder to run. -/
  entry : Ident
deriving Inhabited

/-- All top-level variables with their right-hand sides, in order. -/
def Program.pairs (p : Program) : List (Ident × Rhs) := p.bindings.flatMap Binding.pairs

/-- Whether the entry is bound at top level. -/
def Program.definesEntry (p : Program) : Bool := p.pairs.any fun pair => pair.1.same p.entry

end Spineless
