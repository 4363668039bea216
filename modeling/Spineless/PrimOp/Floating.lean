import Spineless.PrimOp.Call

/-!
# Floating-point numbers

One set of operations serves single and double precision; a `Precision` supplies the arithmetic and
the names. The arithmetic is that of the hardware: comparisons with a NaN are false, a division by
zero is infinite, and nothing fails.
-/

namespace Spineless.PrimOp

/-- The comparisons. -/
inductive Comparison where
  | gt | ge | eq | ne | lt | le

/-- The operations on two numbers. -/
inductive BinaryOp where
  | add | sub | mul | div | power

/-- The operations on one number. -/
inductive UnaryOp where
  | negate | abs | exp | log | sqrt | sin | cos | tan | asin | acos | atan | sinh | cosh | tanh

/-- The operations on floating-point numbers. -/
inductive FloatOp where
  /-- Compares two numbers. -/
  | compare (c : Comparison)
  /-- Combines two numbers. -/
  | binary (op : BinaryOp)
  /-- Maps a number. -/
  | unary (op : UnaryOp)
  /-- Rounds towards zero; out of range the nearest integer is taken, and 0 for a NaN. -/
  | toInt
  /-- Gives the number in the other precision. -/
  | convert

/-- The arithmetic of one precision. -/
structure Precision (F : Type) where
  /-- The number in an atom of this precision. -/
  ofAtom? : Atom → Option F
  /-- The atom of a number. -/
  toAtom : F → Atom
  /-- The atom of a number in the other precision. -/
  converted : F → Atom
  /-- The integer nearest to zero next to a number. -/
  truncated : F → Int64
  /-- Compares two numbers. -/
  compare : Comparison → F → F → Bool
  /-- Combines two numbers. -/
  binary : BinaryOp → F → F → F
  /-- Maps a number. -/
  unary : UnaryOp → F → F

/-- Answers a call in a precision. -/
def FloatOp.run {F : Type} (p : Precision F) (op : FloatOp) (call : Call) : Exec Answer :=
  match op, call.args.map p.ofAtom? with
  | .compare c, [some a, some b] => .answer (.ofBool (p.compare c a b))
  | .binary op, [some a, some b] => .answer (p.toAtom (p.binary op a b))
  | .unary op, [some a] => .answer (p.toAtom (p.unary op a))
  | .toInt, [some a] => .answer (.int (p.truncated a))
  | .convert, [some a] => .answer (p.converted a)
  | _, _ => .declined

/-! ## Single precision -/

/-- Single precision. -/
def single : Precision Float32 where
  ofAtom? a := match a with
    | .float x => some x
    | _ => none
  toAtom := .float
  converted x := .double x.toFloat
  truncated x := x.toInt64
  compare c a b := match c with
    | .gt => b < a
    | .ge => b ≤ a
    | .eq => a == b
    | .ne => a != b
    | .lt => a < b
    | .le => a ≤ b
  binary op a b := match op with
    | .add => a + b
    | .sub => a - b
    | .mul => a * b
    | .div => a / b
    | .power => a.pow b
  unary op a := match op with
    | .negate => -a
    | .abs => a.abs
    | .exp => a.exp
    | .log => a.log
    | .sqrt => a.sqrt
    | .sin => a.sin
    | .cos => a.cos
    | .tan => a.tan
    | .asin => a.asin
    | .acos => a.acos
    | .atan => a.atan
    | .sinh => a.sinh
    | .cosh => a.cosh
    | .tanh => a.tanh

/-- The single-precision operations by name. -/
def singleTable : List (String × FloatOp) := [
  ("gtFloat#", .compare .gt), ("geFloat#", .compare .ge), ("eqFloat#", .compare .eq),
  ("neFloat#", .compare .ne), ("ltFloat#", .compare .lt), ("leFloat#", .compare .le),
  ("plusFloat#", .binary .add), ("minusFloat#", .binary .sub), ("timesFloat#", .binary .mul),
  ("divideFloat#", .binary .div), ("negateFloat#", .unary .negate), ("fabsFloat#", .unary .abs),
  ("float2Int#", .toInt), ("expFloat#", .unary .exp), ("logFloat#", .unary .log),
  ("sqrtFloat#", .unary .sqrt), ("sinFloat#", .unary .sin), ("cosFloat#", .unary .cos),
  ("tanFloat#", .unary .tan), ("asinFloat#", .unary .asin), ("acosFloat#", .unary .acos),
  ("atanFloat#", .unary .atan), ("sinhFloat#", .unary .sinh), ("coshFloat#", .unary .cosh),
  ("tanhFloat#", .unary .tanh), ("powerFloat#", .binary .power), ("float2Double#", .convert)]

/-- The family of single-precision operations. -/
def floatHandler : Handler :=
  .ofNames "Float" (singleTable.map Prod.fst) (singleTable.lookup ·) (FloatOp.run single)

/-! ## Double precision -/

/-- Double precision. -/
def double : Precision Float where
  ofAtom? a := match a with
    | .double x => some x
    | _ => none
  toAtom := .double
  converted x := .float x.toFloat32
  truncated x := x.toInt64
  compare c a b := match c with
    | .gt => b < a
    | .ge => b ≤ a
    | .eq => a == b
    | .ne => a != b
    | .lt => a < b
    | .le => a ≤ b
  binary op a b := match op with
    | .add => a + b
    | .sub => a - b
    | .mul => a * b
    | .div => a / b
    | .power => a.pow b
  unary op a := match op with
    | .negate => -a
    | .abs => a.abs
    | .exp => a.exp
    | .log => a.log
    | .sqrt => a.sqrt
    | .sin => a.sin
    | .cos => a.cos
    | .tan => a.tan
    | .asin => a.asin
    | .acos => a.acos
    | .atan => a.atan
    | .sinh => a.sinh
    | .cosh => a.cosh
    | .tanh => a.tanh

/-- The double-precision operations by name. -/
def doubleTable : List (String × FloatOp) := [
  (">##", .compare .gt), (">=##", .compare .ge), ("==##", .compare .eq), ("/=##", .compare .ne),
  ("<##", .compare .lt), ("<=##", .compare .le), ("+##", .binary .add), ("-##", .binary .sub),
  ("*##", .binary .mul), ("/##", .binary .div), ("negateDouble#", .unary .negate),
  ("fabsDouble#", .unary .abs), ("double2Int#", .toInt), ("expDouble#", .unary .exp),
  ("logDouble#", .unary .log), ("sqrtDouble#", .unary .sqrt), ("sinDouble#", .unary .sin),
  ("cosDouble#", .unary .cos), ("tanDouble#", .unary .tan), ("asinDouble#", .unary .asin),
  ("acosDouble#", .unary .acos), ("atanDouble#", .unary .atan), ("sinhDouble#", .unary .sinh),
  ("coshDouble#", .unary .cosh), ("tanhDouble#", .unary .tanh), ("**##", .binary .power),
  ("double2Float#", .convert)]

/-- The family of double-precision operations. -/
def doubleHandler : Handler :=
  .ofNames "Double" (doubleTable.map Prod.fst) (doubleTable.lookup ·) (FloatOp.run double)

end Spineless.PrimOp
