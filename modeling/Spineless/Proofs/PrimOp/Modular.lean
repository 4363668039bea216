import Mathlib.Data.Int.ModEq
import Mathlib.Logic.Equiv.Defs
import Spineless.Proofs.PrimOp.Footprint

/-!
# Integers modulo 2 to the 64

The operations on signed and on unsigned integers are arithmetic on residues modulo 2 to the 64.
`integers_exact` gives the value of each in terms of exact integers, with the one failure, and says that
the two families compute alike: `int2Word#` carries the operations of the one to those of the other.

Both representations of a residue are tied to exact integers once, by `toNat_toUInt64`. Sums and products
are then congruences. A shift is settled for unsigned integers, in two cases: an amount below the word
size is one that bit vectors can be shifted by, and a larger one leaves nothing but the sign.
-/

namespace Spineless

variable {host : Host}

namespace PrimOp

/-! ## Residues -/

/-- The unsigned integer with the bits of a signed one is its residue. -/
theorem toNat_toUInt64 (a : Int64) : (a.toUInt64.toNat : Int) = a.toInt % 2 ^ 64 := by
  have hbits : a.toInt = (a.toUInt64.toNat : Int).bmod (2 ^ 64) := by
    rw [← Int64.toInt_toBitVec, BitVec.toInt_eq_toNat_bmod, Int64.toNat_toBitVec]
  have hlt : (a.toUInt64.toNat : Int) < 2 ^ 64 := by exact_mod_cast a.toUInt64.toNat_lt
  rw [hbits, show (2 ^ 64 : Int) = (2 ^ 64 : Nat) from rfl, Int.bmod_emod]
  exact (Int.emod_eq_of_lt (Int.natCast_nonneg _) hlt).symm

/-- A signed integer is congruent to the unsigned one with its bits. -/
theorem toInt_modEq (a : Int64) : a.toInt ≡ a.toUInt64.toNat [ZMOD 2 ^ 64] := by
  rw [toNat_toUInt64]
  exact (Int.mod_modEq _ _).symm

/-- A balanced remainder is congruent to what it is the remainder of. -/
private theorem bmod_modEq (x : Int) : x.bmod (2 ^ 64) ≡ x [ZMOD 2 ^ 64] := Int.bmod_emod

/-- The two representations of a residue. -/
def residues : Int64 ≃ UInt64 where
  toFun a := a.toUInt64
  invFun w := w.toInt64
  left_inv := Int64.toInt64_toUInt64
  right_inv := UInt64.toUInt64_toInt64

/-! ## Quotients and remainders -/

variable {a b : Int64}

/-- The quotient is exact, but for the one that is too large. -/
theorem toInt_div_iff :
    (a / b).toInt = a.toInt.tdiv b.toInt ↔ ¬ (a = Int64.minValue ∧ b = -1) := by
  constructor
  · rintro h ⟨rfl, rfl⟩
    exact absurd h (by decide)
  · intro h
    by_cases ha : a = Int64.minValue
    · exact Int64.toInt_div_of_ne_right a b fun hb => h ⟨ha, hb⟩
    · exact Int64.toInt_div_of_ne_left a b ha

/-- Quotient and remainder make up the dividend, as residues. -/
theorem div_mul_add_mod_modEq : (a / b).toInt * b.toInt + (a % b).toInt ≡ a.toInt [ZMOD 2 ^ 64] := by
  have hquot : (a / b).toInt ≡ a.toInt.tdiv b.toInt [ZMOD 2 ^ 64] := by
    rw [Int64.toInt_div]
    exact bmod_modEq _
  calc (a / b).toInt * b.toInt + (a % b).toInt
      ≡ a.toInt.tdiv b.toInt * b.toInt + a.toInt.tmod b.toInt [ZMOD 2 ^ 64] := by
        rw [Int64.toInt_mod]
        exact (hquot.mul_right _).add_right _
    _ = a.toInt := Int.tdiv_mul_add_tmod _ _

/-- Quotient and remainder make up the dividend exactly when the quotient is exact. -/
theorem div_mul_add_mod_iff (hb : b.toInt ≠ 0) :
    (a / b).toInt * b.toInt + (a % b).toInt = a.toInt ↔ ¬ (a = Int64.minValue ∧ b = -1) := by
  have hexact := Int.tdiv_mul_add_tmod a.toInt b.toInt
  rw [← toInt_div_iff, Int64.toInt_mod]
  constructor
  · intro h
    exact mul_right_cancel₀ hb (add_right_cancel (h.trans hexact.symm))
  · intro h
    rw [h, hexact]

/-- The remainder is smaller than the divisor. -/
theorem abs_mod_lt (hb : b.toInt ≠ 0) : |(a % b).toInt| < |b.toInt| := by
  rw [Int64.toInt_mod, Int.abs_eq_natAbs, Int.abs_eq_natAbs, Int.natAbs_tmod]
  exact_mod_cast Nat.mod_lt _ (Int.natAbs_pos.2 hb)

/-- The remainder has the sign of the dividend, if it has one. -/
theorem sign_mod : (a % b).toInt = 0 ∨ (a % b).toInt.sign = a.toInt.sign := by
  rw [Int64.toInt_mod, Int.sign_tmod]
  split
  · next hdvd => exact .inl (Int.tmod_eq_zero_of_dvd hdvd)
  · exact .inr rfl

/-! ## Shifts -/

variable {n : Int64} {w : UInt64}

/-- An amount below the word size is itself. -/
theorem shiftAmount?_of_lt (hnonneg : 0 ≤ n.toInt) (hlt : n.toInt.toNat < 64) :
    shiftAmount? n = some n.toInt.toNat := by
  have hle : 0 ≤ n := Int64.le_iff_toInt_le.2 hnonneg
  have hlt : n < 64 := Int64.lt_iff_toInt_lt.2 ((Int.toNat_lt hnonneg).1 hlt)
  exact if_pos ⟨hle, hlt⟩

/-- An amount that is negative, or not below the word size, is none. -/
theorem shiftAmount?_eq_none (h : n.toInt < 0 ∨ 64 ≤ n.toInt.toNat) : shiftAmount? n = none := by
  refine if_neg fun ⟨hle, hlt⟩ => ?_
  have hle' : 0 ≤ n.toInt := Int64.le_iff_toInt_le.1 hle
  have hlt' : n.toInt < 64 := Int64.lt_iff_toInt_lt.1 hlt
  omega

/-- All negative amounts are the same as the word size. -/
theorem shiftAmount?_of_neg (h : n.toInt < 0) : shiftAmount? n = shiftAmount? 64 := by
  rw [shiftAmount?_eq_none (.inl h)]
  rfl

/-- A shift is by less than the word size. -/
theorem lt_of_shiftAmount? {k : Nat} (h : shiftAmount? n = some k) : k < 64 := by
  by_contra hge
  rw [shiftAmount?, Option.ite_none_right_eq_some, Option.some.injEq] at h
  obtain ⟨⟨-, hlt⟩, rfl⟩ := h
  have hlt' : n.toInt < 64 := Int64.lt_iff_toInt_lt.1 hlt
  have hk : n.toNatClampNeg = n.toInt.toNat := rfl
  omega

/-- An unsigned amount below the word size is not reduced further. -/
private theorem toNat_ofNat_mod {k : Nat} (hk : k < 64) : (UInt64.ofNat k).toNat % 64 = k := by
  rw [UInt64.toNat_ofNat_of_lt' (Nat.lt_trans hk (by decide)), Nat.mod_eq_of_lt hk]

/-- Nor is a signed one. -/
private theorem smod_ofNat {k : Nat} (hk : k < 64) :
    (Int64.ofNat k).toBitVec.smod 64 = BitVec.ofNat 64 k := by
  have hall : ∀ i : Fin 64, (Int64.ofNat i).toBitVec.smod 64 = BitVec.ofNat 64 i := by decide
  exact hall ⟨k, hk⟩

/-- A left shift multiplies. -/
theorem WordOp.toNat_shiftLeft (hn : 0 ≤ n.toInt) :
    ((shiftLeft w n).toNat : Int) ≡ w.toNat * 2 ^ n.toInt.toNat [ZMOD 2 ^ 64] := by
  rw [shiftLeft]
  by_cases hlt : n.toInt.toNat < 64
  · simp only [shiftAmount?_of_lt hn hlt, UInt64.toNat_shiftLeft, toNat_ofNat_mod hlt,
      Nat.shiftLeft_eq]
    push_cast
    exact Int.mod_modEq _ _
  · -- The factor is a multiple of the modulus.
    have hdvd : (2 ^ 64 : Int) ∣ w.toNat * 2 ^ n.toInt.toNat :=
      Dvd.dvd.mul_left (pow_dvd_pow 2 (Nat.le_of_not_lt hlt)) _
    simp only [shiftAmount?_eq_none (.inr (Nat.le_of_not_lt hlt))]
    exact ((Int.modEq_zero_iff_dvd).2 hdvd).symm

/-- A right shift divides. -/
theorem WordOp.toNat_shiftRight (hn : 0 ≤ n.toInt) :
    (shiftRight w n).toNat = w.toNat / 2 ^ n.toInt.toNat := by
  rw [shiftRight]
  by_cases hlt : n.toInt.toNat < 64
  · simp only [shiftAmount?_of_lt hn hlt, UInt64.toNat_shiftRight, toNat_ofNat_mod hlt,
      Nat.shiftRight_eq_div_pow]
  · have hpow : w.toNat < 2 ^ n.toInt.toNat :=
      Nat.lt_of_lt_of_le w.toNat_lt (Nat.pow_le_pow_right (by decide) (Nat.le_of_not_lt hlt))
    simp only [shiftAmount?_eq_none (.inr (Nat.le_of_not_lt hlt))]
    exact (Nat.div_eq_of_lt hpow).symm

/-- Left shifts of signed and of unsigned integers are the same on residues. -/
theorem toUInt64_shiftLeft : (IntOp.shiftLeft a n).toUInt64 = WordOp.shiftLeft a.toUInt64 n := by
  rw [IntOp.shiftLeft, WordOp.shiftLeft]
  cases hamount : shiftAmount? n with
  | none => rfl
  | some k =>
      have hk := lt_of_shiftAmount? hamount
      apply UInt64.toNat_inj.1
      rw [UInt64.toNat_shiftLeft, toNat_ofNat_mod hk, ← Int64.toNat_toBitVec,
        Int64.toBitVec_shiftLeft, smod_ofNat hk, BitVec.shiftLeft_eq', BitVec.toNat_shiftLeft,
        BitVec.toNat_ofNat, Nat.mod_eq_of_lt (Nat.lt_trans hk (by decide)), Int64.toNat_toBitVec]

/-- Right shifts that fill up with zeros are the same on residues. -/
theorem toUInt64_shiftRightLogic :
    (IntOp.shiftRightLogic a n).toUInt64 = WordOp.shiftRight a.toUInt64 n := by
  rw [IntOp.shiftRightLogic, WordOp.shiftRight]
  cases shiftAmount? n with
  | none => rfl
  | some k => exact UInt64.toUInt64_toInt64 _

/-- Of a number that is smaller than the divisor, only the sign is left. -/
private theorem ediv_of_small {x m : Int} (hge : -m ≤ x) (hlt : x < m) :
    x / m = if x < 0 then -1 else 0 := by
  split
  · next hneg =>
      have hdivides : x + m + m * (-1) = x ∧ 0 ≤ x + m ∧ x + m < m := by omega
      exact ((Int.ediv_emod_unique (by omega)).2 hdivides).1
  · next hnonneg => exact Int.ediv_eq_zero_of_lt (Int.not_lt.1 hnonneg) hlt

/-- A right shift that keeps the sign divides and rounds down. -/
theorem IntOp.toInt_shiftRightArith (hn : 0 ≤ n.toInt) :
    (shiftRightArith a n).toInt = a.toInt / 2 ^ n.toInt.toNat := by
  -- The shift is by the amount or, past the last place, by the last place.
  have hshift : ∀ k < 64, (a >>> Int64.ofNat k).toInt = a.toInt / 2 ^ k := by
    intro k hk
    rw [← Int64.toInt_toBitVec, Int64.toBitVec_shiftRight, smod_ofNat hk,
      BitVec.sshiftRight_eq', BitVec.toInt_sshiftRight, BitVec.toNat_ofNat,
      Nat.mod_eq_of_lt (Nat.lt_trans hk (by decide)), Int64.toInt_toBitVec,
      Int.shiftRight_eq_div_pow]
    push_cast
    rfl
  rw [shiftRightArith]
  by_cases hlt : n.toInt.toNat < 64
  · rw [shiftAmount?_of_lt hn hlt, Option.getD_some, hshift _ hlt]
  · have hpow : (2 ^ 63 : Int) ≤ 2 ^ n.toInt.toNat := by
      exact_mod_cast Nat.pow_le_pow_right (by decide) (by omega)
    have hge : -(2 ^ 63) ≤ a.toInt := Int64.le_toInt a
    have hlt' : a.toInt < 2 ^ 63 := Int64.toInt_lt a
    rw [shiftAmount?_eq_none (.inr (Nat.le_of_not_lt hlt)), Option.getD_none, hshift 63 (by decide),
      ediv_of_small hge hlt', ediv_of_small (by omega) (by omega)]

/-- A right shift that does not keep the sign divides the residue. -/
theorem IntOp.toInt_shiftRightLogic_mod (hn : 0 ≤ n.toInt) :
    (shiftRightLogic a n).toInt % 2 ^ 64 = a.toInt % 2 ^ 64 / 2 ^ n.toInt.toNat := by
  rw [← toNat_toUInt64, toUInt64_shiftRightLogic, WordOp.toNat_shiftRight hn, ← toNat_toUInt64 a]
  push_cast
  rfl

/-- Where at least one place is shifted out, the quotient of the residue is the value itself. -/
theorem IntOp.toInt_shiftRightLogic (hpos : 0 < n.toInt) :
    (shiftRightLogic a n).toInt = a.toInt % 2 ^ 64 / 2 ^ n.toInt.toNat := by
  have hresidue := toInt_shiftRightLogic_mod (a := a) (Int.le_of_lt hpos)
  have hsmall : a.toInt % 2 ^ 64 / 2 ^ n.toInt.toNat < 2 ^ 63 := by
    have hpow : (2 ^ 1 : Int) ≤ 2 ^ n.toInt.toNat := by
      exact_mod_cast Nat.pow_le_pow_right (by decide) (by omega)
    exact Int.ediv_lt_of_lt_mul (by omega) (by omega)
  have hge := Int64.le_toInt (shiftRightLogic a n)
  have hlt := Int64.toInt_lt (shiftRightLogic a n)
  omega

/-- A negative amount shifts like the word size. -/
theorem IntOp.shift_of_neg (h : n.toInt < 0) :
    shiftLeft a n = shiftLeft a 64 ∧ shiftRightArith a n = shiftRightArith a 64 ∧
      shiftRightLogic a n = shiftRightLogic a 64 := by
  simp only [shiftLeft, shiftRightArith, shiftRightLogic, shiftAmount?_of_neg h, and_self]

end PrimOp

/-! ## The operations -/

namespace Registry

open PrimOp

/-- Calls give the signed integer that is congruent to an exact result modulo 2 to the 64. -/
def GivesResidue (name : String) (args : List Atom) (exact : Int) : Prop :=
  ∃ r : Int64, (∀ s, Gives s name args (.int r)) ∧ r.toInt ≡ exact [ZMOD 2 ^ 64]

/-- Calls with these arguments fail with a division by zero and leave the state as it is. -/
def DividesByZero (name : String) (args : List Atom) : Prop :=
  ∀ host call s, call.Asks name args →
    (standard host).evaluate call s = .error ⟨.primOpShape name .divisionByZero, s.trace⟩ s

/-- The values of the arithmetic operations, in terms of exact integers. -/
structure ArithmeticExact (a b : Int64) : Prop where
  add : GivesResidue "+#" [.int a, .int b] (a.toInt + b.toInt)
  sub : GivesResidue "-#" [.int a, .int b] (a.toInt - b.toInt)
  mul : GivesResidue "*#" [.int a, .int b] (a.toInt * b.toInt)
  negate : GivesResidue "negateInt#" [.int a] (-a.toInt)
  /-- There is one pair of operands for which the exact quotient is too large. -/
  divide : b ≠ 0 → ∃ q r : Int64,
    (∀ s, Gives s "quotInt#" [.int a, .int b] (.int q)) ∧
    (∀ s, Gives s "remInt#" [.int a, .int b] (.int r)) ∧
    q.toInt * b.toInt + r.toInt ≡ a.toInt [ZMOD 2 ^ 64] ∧
    (q.toInt * b.toInt + r.toInt = a.toInt ↔ ¬ (a = Int64.minValue ∧ b = -1)) ∧
    |r.toInt| < |b.toInt| ∧ (r.toInt = 0 ∨ r.toInt.sign = a.toInt.sign)
  divideByZero : b = 0 →
    DividesByZero "quotInt#" [.int a, .int b] ∧ DividesByZero "remInt#" [.int a, .int b]

/-- The values of the shifts, in terms of exact integers; a quotient is rounded down. -/
structure ShiftsExact (a n : Int64) : Prop where
  left : 0 ≤ n.toInt →
    GivesResidue "uncheckedIShiftL#" [.int a, .int n] (a.toInt * 2 ^ n.toInt.toNat)
  rightArith : 0 ≤ n.toInt → ∃ r : Int64,
    (∀ s, Gives s "uncheckedIShiftRA#" [.int a, .int n] (.int r)) ∧
    r.toInt = a.toInt / 2 ^ n.toInt.toNat
  /-- The quotient of the residue is the residue of the value; past a shift by nothing it is the value. -/
  rightLogic : 0 ≤ n.toInt → ∃ r : Int64,
    (∀ s, Gives s "uncheckedIShiftRL#" [.int a, .int n] (.int r)) ∧
    r.toInt % 2 ^ 64 = a.toInt % 2 ^ 64 / 2 ^ n.toInt.toNat ∧
    (0 < n.toInt → r.toInt = a.toInt % 2 ^ 64 / 2 ^ n.toInt.toNat)
  negative : n.toInt < 0 →
    ∀ name ∈ ["uncheckedIShiftL#", "uncheckedIShiftRA#", "uncheckedIShiftRL#"], ∃ r : Int64, ∀ s,
      Gives s name [.int a, .int n] (.int r) ∧ Gives s name [.int a, .int 64] (.int r)

/-- Operations on two signed integers, and the operations on unsigned integers that are their likes. -/
def binaryPairs : List (String × String) := [
  ("+#", "plusWord#"), ("-#", "minusWord#"), ("*#", "timesWord#"), ("andI#", "and#"),
  ("orI#", "or#"), ("xorI#", "xor#")]

/-- Shifts of signed integers, and their likes. -/
def shiftPairs : List (String × String) := [
  ("uncheckedIShiftL#", "uncheckedShiftL#"), ("uncheckedIShiftRL#", "uncheckedShiftRL#")]

/-- A bijection that the conversions compute and that carries the operations on signed integers to those
on unsigned integers. -/
structure Carries (e : Int64 ≃ UInt64) : Prop where
  toWord : ∀ a s, Gives s "int2Word#" [.int a] (.word (e a))
  toInt : ∀ w s, Gives s "word2Int#" [.word w] (.int (e.symm w))
  /-- It is the residue that both represent. -/
  residue : ∀ a : Int64, ((e a).toNat : Int) = a.toInt % 2 ^ 64
  binary : ∀ pair ∈ binaryPairs, ∀ a b, ∃ r, ∀ s,
    Gives s pair.1 [.int a, .int b] (.int r) ∧
    Gives s pair.2 [.word (e a), .word (e b)] (.word (e r))
  complement : ∀ a, ∃ r, ∀ s,
    Gives s "notI#" [.int a] (.int r) ∧ Gives s "not#" [.word (e a)] (.word (e r))
  shift : ∀ pair ∈ shiftPairs, ∀ a n, ∃ r, ∀ s,
    Gives s pair.1 [.int a, .int n] (.int r) ∧
    Gives s pair.2 [.word (e a), .int n] (.word (e r))
  /-- The amounts of shifts stay as they are, and so do the answers of comparisons. -/
  equal : ∀ a b s,
    Gives s "==#" [.int a, .int b] (.ofBool (a == b)) ∧
    Gives s "eqWord#" [.word (e a), .word (e b)] (.ofBool (a == b))

/-- The signed integers are a standard family. -/
theorem intHandler_mem (host : Host) : intHandler ∈ standardHandlers host := by simp [standardHandlers]

/-- The unsigned integers are a standard family. -/
theorem wordHandler_mem (host : Host) : wordHandler ∈ standardHandlers host := by simp [standardHandlers]

section Values

variable {name : String} {args : List Atom} {value : Atom} {s : State}

/-- An operation on signed integers has the value that its family answers. -/
private theorem gives_int (op : IntOp) (hop : IntOp.ofName? name = some op)
    (hrun : ∀ type tycon, IntOp.run op ⟨name, args, type, tycon⟩ s = .ok (some [value]) s) :
    Gives s name args value :=
  gives_of_run intHandler_mem (IntOp.isSome_ofName?_iff.1 (Option.isSome_of_eq_some hop)) hop hrun

/-- An operation on unsigned integers has the value that its family answers. -/
private theorem gives_word (op : WordOp) (hop : WordOp.ofName? name = some op)
    (hrun : ∀ type tycon, WordOp.run op ⟨name, args, type, tycon⟩ s = .ok (some [value]) s) :
    Gives s name args value :=
  gives_of_run wordHandler_mem (WordOp.isSome_ofName?_iff.1 (Option.isSome_of_eq_some hop)) hop hrun

/-- An operation on signed integers divides by zero when its family says so. -/
private theorem divides_by_zero (op : IntOp) (hop : IntOp.ofName? name = some op)
    (hrun : ∀ type tycon s, IntOp.run op ⟨name, args, type, tycon⟩ s =
      .error ⟨.primOpShape name .divisionByZero, s.trace⟩ s) :
    DividesByZero name args := by
  rintro host ⟨_, _, type, tycon⟩ s ⟨rfl, rfl⟩
  have hname := IntOp.isSome_ofName?_iff.1 (Option.isSome_of_eq_some hop)
  exact standard_evaluate_of_run_error (intHandler_mem host) hname hop (hrun type tycon s)

end Values

/-- Arithmetic is exact modulo 2 to the 64. -/
theorem arithmeticExact (a b : Int64) : ArithmeticExact a b where
  add := ⟨a + b, fun s => gives_int .add rfl fun _ _ => rfl, Int64.toInt_add a b ▸ bmod_modEq _⟩
  sub := ⟨a - b, fun s => gives_int .sub rfl fun _ _ => rfl, Int64.toInt_sub a b ▸ bmod_modEq _⟩
  mul := ⟨a * b, fun s => gives_int .mul rfl fun _ _ => rfl, Int64.toInt_mul a b ▸ bmod_modEq _⟩
  negate := ⟨-a, fun s => gives_int .negate rfl fun _ _ => rfl, Int64.toInt_neg a ▸ bmod_modEq _⟩
  divide hb := by
    have hb' : b.toInt ≠ 0 := fun h => hb (Int64.toInt_inj.1 h)
    exact ⟨a / b, a % b, fun s => gives_int .quot rfl fun _ _ => congrFun (if_neg hb) s,
      fun s => gives_int .rem rfl fun _ _ => congrFun (if_neg hb) s, div_mul_add_mod_modEq,
      div_mul_add_mod_iff hb', abs_mod_lt hb', sign_mod⟩
  divideByZero hb :=
    ⟨divides_by_zero .quot rfl fun _ _ => congrFun (if_pos hb),
      divides_by_zero .rem rfl fun _ _ => congrFun (if_pos hb)⟩

/-- Shifts are exact. -/
theorem shiftsExact (a n : Int64) : ShiftsExact a n where
  left hn := by
    refine ⟨IntOp.shiftLeft a n, fun s => gives_int .shiftL rfl fun _ _ => rfl, ?_⟩
    refine (toInt_modEq _).trans ?_
    rw [toUInt64_shiftLeft]
    exact (WordOp.toNat_shiftLeft hn).trans ((toInt_modEq a).symm.mul_right _)
  rightArith hn :=
    ⟨IntOp.shiftRightArith a n, fun s => gives_int .shiftRA rfl fun _ _ => rfl,
      IntOp.toInt_shiftRightArith hn⟩
  rightLogic hn :=
    ⟨IntOp.shiftRightLogic a n, fun s => gives_int .shiftRL rfl fun _ _ => rfl,
      IntOp.toInt_shiftRightLogic_mod hn, IntOp.toInt_shiftRightLogic⟩
  negative hn := by
    obtain ⟨hleft, harith, hlogic⟩ := IntOp.shift_of_neg (a := a) hn
    intro name hname
    simp only [List.mem_cons, List.not_mem_nil, or_false] at hname
    rcases hname with rfl | rfl | rfl
    · exact ⟨IntOp.shiftLeft a 64, fun s =>
        ⟨gives_int .shiftL rfl fun _ _ => hleft ▸ rfl, gives_int .shiftL rfl fun _ _ => rfl⟩⟩
    · exact ⟨IntOp.shiftRightArith a 64, fun s =>
        ⟨gives_int .shiftRA rfl fun _ _ => harith ▸ rfl, gives_int .shiftRA rfl fun _ _ => rfl⟩⟩
    · exact ⟨IntOp.shiftRightLogic a 64, fun s =>
        ⟨gives_int .shiftRL rfl fun _ _ => hlogic ▸ rfl, gives_int .shiftRL rfl fun _ _ => rfl⟩⟩

/-- The conversions carry the one family to the other. -/
theorem residues_carries : Carries residues where
  toWord a s := gives_int .toWord rfl fun _ _ => rfl
  toInt w s := gives_word .toInt rfl fun _ _ => rfl
  residue := toNat_toUInt64
  binary := by
    simp only [binaryPairs, List.forall_mem_cons]
    refine ⟨fun a b => ⟨a + b, fun s => ⟨gives_int .add rfl fun _ _ => rfl, ?_⟩⟩,
      fun a b => ⟨a - b, fun s => ⟨gives_int .sub rfl fun _ _ => rfl, ?_⟩⟩,
      fun a b => ⟨a * b, fun s => ⟨gives_int .mul rfl fun _ _ => rfl, ?_⟩⟩,
      fun a b => ⟨a &&& b, fun s => ⟨gives_int .and rfl fun _ _ => rfl, ?_⟩⟩,
      fun a b => ⟨a ||| b, fun s => ⟨gives_int .or rfl fun _ _ => rfl, ?_⟩⟩,
      fun a b => ⟨a ^^^ b, fun s => ⟨gives_int .xor rfl fun _ _ => rfl, ?_⟩⟩, by simp⟩
    · exact gives_word .add rfl fun _ _ => rfl
    · exact gives_word .sub rfl fun _ _ => rfl
    · exact gives_word .mul rfl fun _ _ => rfl
    · exact gives_word .and rfl fun _ _ => rfl
    · exact gives_word .or rfl fun _ _ => rfl
    · exact gives_word .xor rfl fun _ _ => rfl
  complement a :=
    ⟨~~~a, fun s => ⟨gives_int .not rfl fun _ _ => rfl, gives_word .not rfl fun _ _ => rfl⟩⟩
  shift := by
    have hleft : ∀ a n, residues (IntOp.shiftLeft a n) = WordOp.shiftLeft (residues a) n :=
      fun _ _ => toUInt64_shiftLeft
    have hright : ∀ a n, residues (IntOp.shiftRightLogic a n) = WordOp.shiftRight (residues a) n :=
      fun _ _ => toUInt64_shiftRightLogic
    simp only [shiftPairs, List.forall_mem_cons]
    refine ⟨fun a n => ⟨IntOp.shiftLeft a n, fun s => ⟨gives_int .shiftL rfl fun _ _ => rfl, ?_⟩⟩,
      fun a n => ⟨IntOp.shiftRightLogic a n, fun s => ⟨gives_int .shiftRL rfl fun _ _ => rfl, ?_⟩⟩,
      by simp⟩
    · rw [hleft]
      exact gives_word .shiftL rfl fun _ _ => rfl
    · rw [hright]
      exact gives_word .shiftRL rfl fun _ _ => rfl
  equal a b s := by
    have heq : (residues a == residues b) = (a == b) := by
      rw [Bool.eq_iff_iff, beq_iff_eq, beq_iff_eq, residues.apply_eq_iff_eq]
    refine ⟨gives_int .eq rfl fun _ _ => rfl, ?_⟩
    rw [← heq]
    exact gives_word .eq rfl fun _ _ => rfl

/-- Arithmetic and shifts of signed integers are exact modulo 2 to the 64, with a division by zero as the
only failure, and there is a bijection with the unsigned integers, which the conversions compute, that
carries the operations of the one family to those of the other. -/
theorem integers_exact :
    (∀ a b, ArithmeticExact a b) ∧ (∀ a n, ShiftsExact a n) ∧ ∃ e : Int64 ≃ UInt64, Carries e :=
  ⟨arithmeticExact, shiftsExact, residues, residues_carries⟩

/-- The least integer has no exact quotient by -1; shifted by itself, it is shifted like by 64. -/
theorem integers_exact_least :
    (∃ q r : Int64, (∀ s, Gives s "quotInt#" [.int Int64.minValue, .int (-1)] (.int q)) ∧
      (∀ s, Gives s "remInt#" [.int Int64.minValue, .int (-1)] (.int r)) ∧
      q.toInt * (-1) + r.toInt ≠ Int64.minValue.toInt) ∧
    ∃ r : Int64, ∀ s,
      Gives s "uncheckedIShiftRA#" [.int Int64.minValue, .int Int64.minValue] (.int r) ∧
      Gives s "uncheckedIShiftRA#" [.int Int64.minValue, .int 64] (.int r) := by
  obtain ⟨harithmetic, hshifts, -⟩ := integers_exact
  constructor
  · obtain ⟨q, r, hq, hr, -, hexact, -⟩ := (harithmetic Int64.minValue (-1)).divide (by decide)
    exact ⟨q, r, hq, hr, fun h => hexact.1 h ⟨rfl, rfl⟩⟩
  · exact (hshifts Int64.minValue Int64.minValue).negative (by decide) _ (by simp)

end Registry

end Spineless
