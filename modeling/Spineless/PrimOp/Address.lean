import Spineless.Bound
import Spineless.PrimOp.Call

/-!
# Pointers into string literals

A pointer moves within the range of signed integers and is read at most one byte behind its literal.
-/

namespace Spineless.PrimOp

/-- The operations on string pointers. -/
inductive AddrOp where
  | plus | minus | eq | indexChar | indexWord8

namespace AddrOp

/-- The names that the family lists. -/
def names : List String := [
  "plusAddr#", "minusAddr#", "eqAddr#", "indexCharOffAddr#", "indexWord8OffAddr#"]

/-- The operation that a name is matched with. -/
def ofName? : String → Option AddrOp
  | "plusAddr#" => some plus
  | "minusAddr#" => some minus
  | "eqAddr#" => some eq
  | "indexCharOffAddr#" => some indexChar
  | "indexWord8OffAddr#" => some indexWord8
  | _ => none

/-- A pointer moved by some bytes. -/
def move (call : Call) (p : StringPtr) (delta : Int64) : Exec StringPtr :=
  let target := (p.offset : Int) + delta.toInt
  if p.offset < Bound.int ∧ 0 ≤ target ∧ target < Bound.int then
    pure { p with offset := target.toNat }
  else call.refuse (.badOffset delta.toInt p.offset)

/-- The byte some way behind a pointer. -/
def byteAt (call : Call) (p : StringPtr) (delta : Int64) : Exec UInt8 := do
  let q ← move call p delta
  match (← get).strings.byteAt? q with
  | some byte => pure byte
  | none => call.refuse (.byteOutside q.offset q.id)

/-- Whether an atom is an address: a string pointer or the null address. -/
def isAddress : Atom → Bool
  | .str _ | .nullAddr => true
  | _ => false

/-- Answers a call. -/
def run (op : AddrOp) (call : Call) : Exec Answer :=
  match op, call.args with
  | plus, [.str p, .int n] => do .answer (.str (← move call p n))
  | minus, [.str p, .str q] =>
    if p.id = q.id then .answer (.int (Int64.ofNat p.offset - Int64.ofNat q.offset)) else .declined
  | eq, [a, b] => if isAddress a && isAddress b then .answer (.ofBool (a == b)) else .declined
  | indexChar, [.str p, .int n] => do .answer (.char (Char.ofNat (← byteAt call p n).toNat))
  | indexWord8, [.str p, .int n] => do .answer (.word (← byteAt call p n).toUInt64)
  | _, _ => .declined

end AddrOp

/-- The family of operations on string pointers. -/
def addrHandler : Handler := .ofNames "Addr" AddrOp.names AddrOp.ofName? AddrOp.run

end Spineless.PrimOp
