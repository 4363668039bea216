import Spineless.PrimOp.Integer

/-!
# Unsigned integers and characters

Arithmetic on unsigned machine integers wraps around; shift amounts are signed integers, with the
rule of the signed shifts. Characters are compared by code point.
-/

namespace Spineless.PrimOp

/-- The operations on unsigned integers. -/
inductive WordOp where
  | add | sub | mul | quot | rem
  | and | or | xor | not
  | eq | ne | lt | le | gt | ge
  | shiftL | shiftRL
  | toInt | toDouble

namespace WordOp

/-- The names that the family lists. -/
def names : List String := [
  "plusWord#", "minusWord#", "timesWord#", "quotWord#", "remWord#", "and#", "or#", "xor#", "not#",
  "eqWord#", "neWord#", "ltWord#", "leWord#", "gtWord#", "geWord#", "uncheckedShiftL#",
  "uncheckedShiftRL#", "word2Int#", "word2Double#"]

/-- The operation that a name is matched with. -/
def ofName? : String → Option WordOp
  | "word2Int#" => some toInt
  | "word2Double#" => some toDouble
  | "not#" => some not
  | "uncheckedShiftL#" => some shiftL
  | "uncheckedShiftRL#" => some shiftRL
  | "plusWord#" => some add
  | "minusWord#" => some sub
  | "timesWord#" => some mul
  | "quotWord#" => some quot
  | "remWord#" => some rem
  | "and#" => some and
  | "or#" => some or
  | "xor#" => some xor
  | "eqWord#" => some eq
  | "neWord#" => some ne
  | "ltWord#" => some lt
  | "leWord#" => some le
  | "gtWord#" => some gt
  | "geWord#" => some ge
  | _ => none

/-- Left shift. -/
def shiftLeft (a : UInt64) (n : Int64) : UInt64 :=
  match shiftAmount? n with
  | some k => a <<< UInt64.ofNat k
  | none => 0

/-- Right shift. -/
def shiftRight (a : UInt64) (n : Int64) : UInt64 :=
  match shiftAmount? n with
  | some k => a >>> UInt64.ofNat k
  | none => 0

/-- Answers a call. -/
def run (op : WordOp) (call : Call) : Exec Answer :=
  match op, call.args with
  | add, [.word a, .word b] => .answer (.word (a + b))
  | sub, [.word a, .word b] => .answer (.word (a - b))
  | mul, [.word a, .word b] => .answer (.word (a * b))
  | quot, [.word a, .word b] =>
    if b = 0 then call.refuse .divisionByZero else .answer (.word (a / b))
  | rem, [.word a, .word b] =>
    if b = 0 then call.refuse .divisionByZero else .answer (.word (a % b))
  | and, [.word a, .word b] => .answer (.word (a &&& b))
  | or, [.word a, .word b] => .answer (.word (a ||| b))
  | xor, [.word a, .word b] => .answer (.word (a ^^^ b))
  | not, [.word a] => .answer (.word (~~~a))
  | eq, [.word a, .word b] => .answer (.ofBool (a == b))
  | ne, [.word a, .word b] => .answer (.ofBool (a != b))
  | lt, [.word a, .word b] => .answer (.ofBool (a < b))
  | le, [.word a, .word b] => .answer (.ofBool (a ≤ b))
  | gt, [.word a, .word b] => .answer (.ofBool (b < a))
  | ge, [.word a, .word b] => .answer (.ofBool (b ≤ a))
  | shiftL, [.word a, .int n] => .answer (.word (shiftLeft a n))
  | shiftRL, [.word a, .int n] => .answer (.word (shiftRight a n))
  | toInt, [.word a] => .answer (.int a.toInt64)
  | toDouble, [.word a] => .answer (.double a.toFloat)
  | _, _ => .declined

end WordOp

/-- The family of operations on unsigned integers. -/
def wordHandler : Handler := .ofNames "Word" WordOp.names WordOp.ofName? WordOp.run

/-- The operations on characters. -/
inductive CharOp where
  | ord | eq | ne | lt | le | gt | ge

namespace CharOp

/-- The names that the family lists. -/
def names : List String := [
  "ord#", "eqChar#", "neChar#", "ltChar#", "leChar#", "gtChar#", "geChar#"]

/-- The operation that a name is matched with. -/
def ofName? : String → Option CharOp
  | "ord#" => some ord
  | "eqChar#" => some eq
  | "neChar#" => some ne
  | "ltChar#" => some lt
  | "leChar#" => some le
  | "gtChar#" => some gt
  | "geChar#" => some ge
  | _ => none

/-- Answers a call. -/
def run (op : CharOp) (call : Call) : Exec Answer :=
  match op, call.args with
  | ord, [.char c] => .answer (.int (Int64.ofNat c.toNat))
  | eq, [.char a, .char b] => .answer (.ofBool (a == b))
  | ne, [.char a, .char b] => .answer (.ofBool (a != b))
  | lt, [.char a, .char b] => .answer (.ofBool (a < b))
  | le, [.char a, .char b] => .answer (.ofBool (a ≤ b))
  | gt, [.char a, .char b] => .answer (.ofBool (b < a))
  | ge, [.char a, .char b] => .answer (.ofBool (b ≤ a))
  | _, _ => .declined

end CharOp

/-- The family of operations on characters. -/
def charHandler : Handler := .ofNames "Char" CharOp.names CharOp.ofName? CharOp.run

end Spineless.PrimOp
