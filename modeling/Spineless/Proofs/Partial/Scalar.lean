import Spineless.Proofs.Partial.Basic
import Spineless.Proofs.PrimOp.Modular
import Spineless.Proofs.PrimOp.Pointers

/-!
# Integers and pointers with partial operations

The families of integers and string pointers again, with a partial operation wherever they divide, shift,
subtract or index; the rest of a family is what it was. The conditions come from the checks that stand before
an operation. Only the subtraction of two pointers is not checked: it needs offsets that are signed integers.
-/

namespace Spineless

open PrimOp

/-- The string pointers among the arguments of a call have offsets that are signed integers. -/
def Call.Offsets (call : Call) : Prop := ∀ p, .str p ∈ call.args → p.offset < Bound.int

namespace Partial

variable {fits : Prop} {call : Call} {s : State}

/-! ## Integers -/

/-- Answers a call of an operation on signed integers. -/
def intRun (op : IntOp) (call : Call) : Partial Answer :=
  match op, call.args with
  | .quot, [.int a, .int b] =>
    if b = 0 then call.refuse .divisionByZero
    else do Exec.answer (.int (← dividedBy b (a / b)))
  | .rem, [.int a, .int b] =>
    if b = 0 then call.refuse .divisionByZero
    else do Exec.answer (.int (← dividedBy b (a % b)))
  | .shiftRA, [.int a, .int n] => do
    let k := (shiftAmount? n).getD 63
    Exec.answer (.int (← shiftedBy k (a >>> Int64.ofNat k)))
  | .shiftRL, [.int a, .int n] =>
    match shiftAmount? n with
    | some k => do Exec.answer (.int (← shiftedBy k (a.toUInt64 >>> UInt64.ofNat k)).toInt64)
    | none => Exec.answer (.int 0)
  | op, _ => op.run call

/-- Answers a call of an operation on unsigned integers. -/
def wordRun (op : WordOp) (call : Call) : Partial Answer :=
  match op, call.args with
  | .quot, [.word a, .word b] =>
    if b = 0 then call.refuse .divisionByZero
    else do Exec.answer (.word (← dividedBy b (a / b)))
  | .rem, [.word a, .word b] =>
    if b = 0 then call.refuse .divisionByZero
    else do Exec.answer (.word (← dividedBy b (a % b)))
  | .shiftL, [.word a, .int n] =>
    match shiftAmount? n with
    | some k => do Exec.answer (.word (← shiftedBy k (a <<< UInt64.ofNat k)))
    | none => Exec.answer (.word 0)
  | .shiftRL, [.word a, .int n] =>
    match shiftAmount? n with
    | some k => do Exec.answer (.word (← shiftedBy k (a >>> UInt64.ofNat k)))
    | none => Exec.answer (.word 0)
  | op, _ => op.run call

theorem intRun_agrees (op : IntOp) : Agrees fits (intRun op call) (op.run call) s := by
  fun_cases intRun op call with
  | case1 a hargs | case3 a hargs =>
      simp only [IntOp.run, hargs, if_true]
      exact .lift _
  | case2 a b hargs hne | case4 a b hargs hne =>
      simp only [IntOp.run, hargs, hne, if_false]
      exact .defined_bind hne (.lift _)
  | case5 a n hargs k =>
      simp only [IntOp.run, hargs]
      refine .defined_bind ?_ (.lift _)
      cases hk : shiftAmount? n with
      | none => simp [k, hk]
      | some amount => simpa [k, hk] using lt_of_shiftAmount? hk
  | case6 a n hargs k hk =>
      simp only [IntOp.run, IntOp.shiftRightLogic, hargs, hk]
      exact .defined_bind (lt_of_shiftAmount? hk) (.lift _)
  | case7 a n hargs hk =>
      simp only [IntOp.run, IntOp.shiftRightLogic, hargs, hk]
      exact .lift _
  | case8 => exact .lift _

theorem wordRun_agrees (op : WordOp) : Agrees fits (wordRun op call) (op.run call) s := by
  fun_cases wordRun op call with
  | case1 a hargs | case3 a hargs =>
      simp only [WordOp.run, hargs, if_true]
      exact .lift _
  | case2 a b hargs hne | case4 a b hargs hne =>
      simp only [WordOp.run, hargs, hne, if_false]
      exact .defined_bind hne (.lift _)
  | case5 a n hargs k hk | case7 a n hargs k hk =>
      simp only [WordOp.run, WordOp.shiftLeft, WordOp.shiftRight, hargs, hk]
      exact .defined_bind (lt_of_shiftAmount? hk) (.lift _)
  | case6 a n hargs hk | case8 a n hargs hk =>
      simp only [WordOp.run, WordOp.shiftLeft, WordOp.shiftRight, hargs, hk]
      exact .lift _
  | case9 => exact .lift _

/-! ## Pointers -/

/-- The byte some way behind a pointer. -/
def byteAt (call : Call) (p : StringPtr) (delta : Int64) : Partial UInt8 := do
  let q ← AddrOp.move call p delta
  match (← get).strings.resolve? q.id with
  | none => call.refuse (.byteOutside q.offset q.id)
  | some bytes =>
    if q.offset < bytes.length then entry bytes[q.offset]?
    else if q.offset = bytes.length then pure 0
    else call.refuse (.byteOutside q.offset q.id)

/-- Answers a call of an operation on string pointers. -/
def addrRun (op : AddrOp) (call : Call) : Partial Answer :=
  match op, call.args with
  | .minus, [.str p, .str q] =>
    if p.id = q.id then do
      Exec.answer (.int (← subInt (Int64.ofNat p.offset) (Int64.ofNat q.offset)))
    else Exec.declined
  | .indexChar, [.str p, .int n] => do
    Exec.answer (.char (Char.ofNat (← byteAt call p n).toNat))
  | .indexWord8, [.str p, .int n] => do Exec.answer (.word (← byteAt call p n).toUInt64)
  | op, _ => op.run call

theorem byteAt_agrees (p : StringPtr) (n : Int64) :
    Agrees fits (byteAt call p n) (AddrOp.byteAt call p n) s := by
  refine .bind (.lift _) fun q t _ => ?_
  refine .of_eq ?_
  rw [get_bind, lift, Exec.get_bind, StringTable.byteAt?]
  cases t.strings.resolve? q.id with
  | none => rfl
  | some bytes =>
      rcases Nat.lt_trichotomy q.offset bytes.length with hlt | heq | hgt
      · simp only [hlt, Nat.ne_of_lt hlt, if_true, if_false, List.getElem?_eq_getElem hlt]
        rfl
      · simp only [heq, Nat.lt_irrefl, if_true, if_false]
        rfl
      · simp only [Nat.lt_asymm hgt, Nat.ne_of_gt hgt, if_false, List.getElem?_eq_none (Nat.le_of_lt hgt)]
        rfl

theorem addrRun_agrees (hoffsets : call.Offsets) (op : AddrOp) :
    Agrees fits (addrRun op call) (op.run call) s := by
  fun_cases addrRun op call with
  | case1 p q hargs hid =>
      have hp : p.offset < Bound.int := hoffsets p (by simp [hargs])
      have hq : q.offset < Bound.int := hoffsets q (by simp [hargs])
      have hp' : (Int64.ofNat p.offset).toInt = p.offset := Int64.toInt_ofNat_of_lt hp
      have hq' : (Int64.ofNat q.offset).toInt = q.offset := Int64.toInt_ofNat_of_lt hq
      simp only [AddrOp.run, hargs, hid, if_true]
      refine .defined_bind ?_ (.lift _)
      rw [hp', hq']
      omega
  | case2 p q hargs hid =>
      simp only [AddrOp.run, hargs, hid, if_false]
      exact .lift _
  | case3 p n hargs =>
      simp only [AddrOp.run, hargs]
      exact .bind (byteAt_agrees p n) fun _ _ _ => .lift _
  | case4 p n hargs =>
      simp only [AddrOp.run, hargs]
      exact .bind (byteAt_agrees p n) fun _ _ _ => .lift _
  | case5 => exact .lift _

/-- The bound on offsets is needed: the next offset is the least signed integer. -/
example (s : State) :
    addrRun .minus ⟨"minusAddr#", [.str ⟨0, Bound.int⟩, .str ⟨0, 1⟩], .poly, none⟩ s =
      .error .undefined s := rfl

end Partial

end Spineless
