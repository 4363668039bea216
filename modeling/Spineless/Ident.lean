/-!
# Binders

A binder has a key, which identifies it, and a name, which is only shown. Two tokens stand for the
absence of a value; they are recognised by their keys.
-/

namespace Spineless

/-- A variable. Two identifiers denote the same variable exactly when their keys are equal. -/
structure Ident where
  /-- The name shown to a reader. -/
  name : String
  /-- The unique key. -/
  key : String
deriving DecidableEq, Inhabited

namespace Ident

/-- The key of the token for the state of the world. -/
def realWorldKey : String := "ghc-prim_GHC.Prim.realWorld#"

/-- The key of the token for no value at all. -/
def voidKey : String := "ghc-prim_GHC.Prim.void#"

/-- An identifier whose key is its name. -/
def ofName (name : String) : Ident := ⟨name, name⟩

/-- An identifier whose key is its name and a number that is unique in the program. -/
def numbered (name : String) (unique : Nat) : Ident := ⟨name, name ++ "_" ++ toString unique⟩

/-- The token for the state of the world. -/
def realWorld : Ident := ⟨"realWorld#", realWorldKey⟩

/-- The token for no value at all. -/
def void : Ident := ⟨"void#", voidKey⟩

/-- Whether the identifier is one of the two tokens, which carry no information. -/
def isToken (x : Ident) : Bool := x.key == realWorldKey || x.key == voidKey

/-- Whether two identifiers denote the same variable. -/
def same (x y : Ident) : Bool := x.key == y.key

/-- Identifiers in the order of their keys; equal keys keep their order. -/
def sort (xs : List Ident) : List Ident := xs.mergeSort fun x y => !decide (y.key < x.key)

/-- How many different variables a list names. -/
def distinct (xs : List Ident) : Nat := (xs.map key).eraseDups.length

end Ident

end Spineless
