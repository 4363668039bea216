import Spineless.PrimOp.Call

/-!
# Signed integers

Arithmetic on signed machine integers wraps around. Comparisons answer 1 or 0. A shift by the word
size or more, or by a negative amount, shifts everything out.
-/

namespace Spineless.PrimOp

/-- A shift amount below the word size. -/
def shiftAmount? (n : Int64) : Option Nat :=
  if 0 ≤ n ∧ n < 64 then some n.toNatClampNeg else none

/-- The operations on signed integers. -/
inductive IntOp where
  | add | sub | mul | quot | rem | negate
  | eq | ne | lt | le | gt | ge
  | and | or | xor | not
  | shiftL | shiftRA | shiftRL
  | toWord | toFloat | toDouble | chr

namespace IntOp

/-- The names that the family lists. -/
def names : List String := [
  "+#", "-#", "*#", "quotInt#", "remInt#", "negateInt#", "==#", "/=#", "<#", "<=#", ">#", ">=#",
  "andI#", "orI#", "xorI#", "notI#", "uncheckedIShiftL#", "uncheckedIShiftRA#",
  "uncheckedIShiftRL#", "int2Word#", "int2Float#", "int2Double#", "chr#"]

/-- The operation that a name is matched with. -/
def ofName? : String → Option IntOp
  | "+#" => some add
  | "-#" => some sub
  | "*#" => some mul
  | "quotInt#" => some quot
  | "remInt#" => some rem
  | "negateInt#" => some negate
  | "==#" => some eq
  | "/=#" => some ne
  | "<#" => some lt
  | "<=#" => some le
  | ">#" => some gt
  | ">=#" => some ge
  | "andI#" => some and
  | "orI#" => some or
  | "xorI#" => some xor
  | "notI#" => some not
  | "uncheckedIShiftL#" => some shiftL
  | "uncheckedIShiftRA#" => some shiftRA
  | "uncheckedIShiftRL#" => some shiftRL
  | "int2Word#" => some toWord
  | "int2Float#" => some toFloat
  | "int2Double#" => some toDouble
  | "chr#" => some chr
  | _ => none

/-- Left shift. -/
def shiftLeft (a n : Int64) : Int64 :=
  match shiftAmount? n with
  | some k => a <<< Int64.ofNat k
  | none => 0

/-- Right shift that keeps the sign. -/
def shiftRightArith (a n : Int64) : Int64 := a >>> Int64.ofNat ((shiftAmount? n).getD 63)

/-- Right shift that fills up with zeros. -/
def shiftRightLogic (a n : Int64) : Int64 :=
  match shiftAmount? n with
  | some k => (a.toUInt64 >>> UInt64.ofNat k).toInt64
  | none => 0

/-- The character with a code point. -/
def char? (n : Int64) : Option Char :=
  if 0 ≤ n ∧ n.toNatClampNeg.isValidChar then some (Char.ofNat n.toNatClampNeg) else none

/-- Answers a call. -/
def run (op : IntOp) (call : Call) : Exec Answer :=
  match op, call.args with
  | add, [.int a, .int b] => .answer (.int (a + b))
  | sub, [.int a, .int b] => .answer (.int (a - b))
  | mul, [.int a, .int b] => .answer (.int (a * b))
  | quot, [.int a, .int b] =>
    if b = 0 then call.refuse .divisionByZero else .answer (.int (a / b))
  | rem, [.int a, .int b] =>
    if b = 0 then call.refuse .divisionByZero else .answer (.int (a % b))
  | negate, [.int a] => .answer (.int (-a))
  | eq, [.int a, .int b] => .answer (.ofBool (a == b))
  | ne, [.int a, .int b] => .answer (.ofBool (a != b))
  | lt, [.int a, .int b] => .answer (.ofBool (a < b))
  | le, [.int a, .int b] => .answer (.ofBool (a ≤ b))
  | gt, [.int a, .int b] => .answer (.ofBool (b < a))
  | ge, [.int a, .int b] => .answer (.ofBool (b ≤ a))
  | and, [.int a, .int b] => .answer (.int (a &&& b))
  | or, [.int a, .int b] => .answer (.int (a ||| b))
  | xor, [.int a, .int b] => .answer (.int (a ^^^ b))
  | not, [.int a] => .answer (.int (~~~a))
  | shiftL, [.int a, .int n] => .answer (.int (shiftLeft a n))
  | shiftRA, [.int a, .int n] => .answer (.int (shiftRightArith a n))
  | shiftRL, [.int a, .int n] => .answer (.int (shiftRightLogic a n))
  | toWord, [.int a] => .answer (.word a.toUInt64)
  | toFloat, [.int a] => .answer (.float a.toFloat32)
  | toDouble, [.int a] => .answer (.double a.toFloat)
  | chr, [.int a] =>
    match char? a with
    | some c => .answer (.char c)
    | none => call.refuse (.notACodePoint a.toInt)
  | _, _ => .declined

end IntOp

/-- The family of operations on signed integers. -/
def intHandler : Handler := .ofNames "Int" IntOp.names IntOp.ofName? IntOp.run

end Spineless.PrimOp
