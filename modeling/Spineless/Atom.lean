import Spineless.Decimal.Written
import Spineless.Text.Quoted

/-!
# Atoms

The values that cross closure and argument boundaries: scalars, heap addresses, pointers into string
literals, and handles of the auxiliary object spaces. Composite values are never atoms; they live on
the heap behind an address.

Two atoms are compared with `==`, which compares floating-point numbers as numbers: a NaN differs
from itself and the two zeros are equal.
-/

namespace Spineless

/-- A heap address. Addresses are handed out in increasing order and never reused. -/
abbrev Addr := Nat

/-- The index of an object in one of the auxiliary spaces. -/
abbrev Handle := Nat

/-- The text of a heap address. -/
def Addr.text (a : Addr) : String := "@" ++ toString a

/-- A pointer to a byte of a string literal. -/
structure StringPtr where
  /-- Which literal. -/
  id : Nat
  /-- The position of the byte. -/
  offset : Nat
deriving DecidableEq, Inhabited

/-- A value small enough to be an argument. -/
inductive Atom where
  /-- A reference to a heap object. -/
  | ptr (addr : Addr)
  /-- A signed machine integer. -/
  | int (n : Int64)
  /-- An unsigned machine integer. -/
  | word (n : UInt64)
  /-- A character. -/
  | char (c : Char)
  /-- The null address. -/
  | nullAddr
  /-- A pointer into a string literal. -/
  | str (p : StringPtr)
  /-- No value. -/
  | void
  /-- A single-precision number. -/
  | float (x : Float32)
  /-- A double-precision number. -/
  | double (x : Float)
  /-- A stable pointer to an atom. -/
  | stable (inner : Atom)
  /-- A synchronising variable. -/
  | mvar (h : Handle)
  /-- A frozen array. -/
  | array (h : Handle)
  /-- A mutable array. -/
  | mutableArray (h : Handle)
  /-- A frozen small array. -/
  | smallArray (h : Handle)
  /-- A mutable small array. -/
  | smallMutableArray (h : Handle)
  /-- A mutable variable. -/
  | mutVar (h : Handle)
  /-- A byte array, frozen or mutable. -/
  | byteArray (h : Handle)
  /-- A weak pointer. -/
  | weak (h : Handle)
  /-- A thread. -/
  | thread (h : Handle)
deriving Inhabited

namespace Atom

/-- The answer of a primitive comparison: the integer 1 or 0. -/
def ofBool (b : Bool) : Atom := .int (if b then 1 else 0)

/-- The address behind a heap reference. -/
def addr? : Atom → Option Addr
  | .ptr a => some a
  | _ => none

/-- The value of a signed integer. -/
def int? : Atom → Option Int64
  | .int n => some n
  | _ => none

/-- The value of an unsigned integer. -/
def word? : Atom → Option UInt64
  | .word n => some n
  | _ => none

/-- Whether the atom carries no value. -/
def isVoid : Atom → Bool
  | .void => true
  | _ => false

/-- Equality of atoms, with floating-point numbers compared as numbers. -/
def beq : Atom → Atom → Bool
  | .ptr a, .ptr b => a == b
  | .int a, .int b => a == b
  | .word a, .word b => a == b
  | .char a, .char b => a == b
  | .nullAddr, .nullAddr => true
  | .str p, .str q => p == q
  | .void, .void => true
  | .float x, .float y => x == y
  | .double x, .double y => x == y
  | .stable a, .stable b => beq a b
  | .mvar a, .mvar b => a == b
  | .array a, .array b => a == b
  | .mutableArray a, .mutableArray b => a == b
  | .smallArray a, .smallArray b => a == b
  | .smallMutableArray a, .smallMutableArray b => a == b
  | .mutVar a, .mutVar b => a == b
  | .byteArray a, .byteArray b => a == b
  | .weak a, .weak b => a == b
  | .thread a, .thread b => a == b
  | _, _ => false

instance : BEq Atom := ⟨beq⟩

/-- The name of an atom's sort, for diagnostics. -/
def kindName : Atom → String
  | .ptr _ => "HeapPtr"
  | .int _ | .word _ | .char _ | .nullAddr => "Literal"
  | .str _ => "StringPtr"
  | .void => "Void"
  | .float _ => "Float"
  | .double _ => "Double"
  | .stable _ => "StablePointer"
  | .mvar _ => "MVar"
  | .array _ => "Array"
  | .mutableArray _ => "MutableArray"
  | .smallArray _ => "SmallArray"
  | .smallMutableArray _ => "SmallMutableArray"
  | .mutVar _ => "MutVar"
  | .byteArray _ => "ByteArray"
  | .weak _ => "WeakPointer"
  | .thread _ => "ThreadId"

/-- The text of a handle: its sort and its index in angle brackets. -/
def handleText (kind : String) (h : Handle) : String := "<" ++ kind ++ " " ++ toString h ++ ">"

/-- The text of an atom. Unboxed scalars carry the hash marks of their literals. -/
def text : Atom → String
  | .ptr a => Addr.text a
  | .int n => toString n.toInt ++ "#"
  | .word n => toString n.toNat ++ "##"
  | .char c => Text.quoteChar c ++ "#"
  | .nullAddr => "nullAddr#"
  | .str p => "<string " ++ toString p.id ++ "+" ++ toString p.offset ++ ">"
  | .void => "void#"
  | .float x => Decimal.ofFloat32 x ++ "#"
  | .double x => Decimal.ofFloat x ++ "##"
  | .stable inner => "<stable " ++ inner.text ++ ">"
  | .mvar h => handleText "MVar" h
  | .array h => handleText "Array" h
  | .mutableArray h => handleText "MutableArray" h
  | .smallArray h => handleText "SmallArray" h
  | .smallMutableArray h => handleText "SmallMutableArray" h
  | .mutVar h => handleText "MutVar" h
  | .byteArray h => handleText "ByteArray" h
  | .weak h => handleText "WeakPointer" h
  | .thread h => handleText "ThreadId" h

/-- The texts of several atoms, separated by commas. -/
def textList (atoms : List Atom) : String := ", ".intercalate (atoms.map text)

end Atom

end Spineless
