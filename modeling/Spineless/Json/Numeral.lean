import Spineless.Bound
import Spineless.Decimal.Written

/-!
# Numbers in a JSON text

A numeral is kept as it was written: sign, whole part, fraction digits, exponent. It is an integer
when it has neither a fraction nor an exponent and lies in the range of machine integers; every
other numeral is a floating-point number.

The floating-point value is computed in one pass over the digits: as many leading digits as a 64-bit
word holds are scaled by one power of ten. This is the exact value for numerals of up to fifteen
digits with a moderate exponent, and may be off by a unit in the last place for longer ones.
-/

namespace Spineless.Json

/-- A number as it was written. -/
structure Numeral where
  /-- Whether there is a minus sign. -/
  negative : Bool := false
  /-- The digits before the point, which have no leading zeros. -/
  whole : Nat
  /-- The digits after the point; without a point there are none. -/
  fraction : List (Fin 10) := []
  /-- The exponent, if one is written. -/
  exponent : Option Int := none
deriving DecidableEq, Inhabited

namespace Numeral

/-- The value of a numeral without fraction and exponent, in the range of signed or unsigned machine
integers. Minus zero is no integer. -/
def int? (n : Numeral) : Option Int :=
  if n.fraction.isEmpty && n.exponent.isNone then
    if n.negative then
      if 1 ≤ n.whole ∧ n.whole ≤ Bound.int then some (-n.whole) else none
    else if n.whole < Bound.word then some n.whole else none
  else none

/-- The numeral of an integer. -/
def ofInt (n : Int) : Numeral := { negative := n < 0, whole := n.natAbs }

/-- The leading digits that fit into a machine word, with the number of digits dropped. -/
def leading (n : Nat) : Nat × Nat :=
  if n < Bound.word then (n, 0)
  else
    let (digits, dropped) := leading (n / 10)
    (digits, dropped + 1)
termination_by n
decreasing_by
  have h := ‹¬n < Bound.word›
  simp only [Bound.word] at h
  omega

/-- Appends digits after the point as long as they fit into a machine word, and counts them. -/
def appendFraction : Nat → List (Fin 10) → Nat × Nat
  | digits, [] => (digits, 0)
  | digits, d :: rest =>
    if digits * 10 + d.val < Bound.word then
      let (digits, count) := appendFraction (digits * 10 + d.val) rest
      (digits, count + 1)
    else (digits, 0)

/-- The floating-point number `x · 10 ^ exponent`; `none` if it is too large. Far below the range of
powers of ten the number is scaled down in several steps. -/
def scale (x : Float) (exponent : Int) : Option Float :=
  if exponent.natAbs ≤ 308 then
    let power := Float.ofScientific 1 false exponent.natAbs
    if 0 ≤ exponent then
      let y := x * power
      if y.isInf then none else some y
    else some (x / power)
  else if x == 0 then some x
  else if 0 ≤ exponent then none
  else scale (x / Float.ofScientific 1 false 308) (exponent + 308)
termination_by exponent.natAbs
decreasing_by omega

/-- The floating-point value of a numeral; `none` if it is too large. -/
def float? (n : Numeral) : Option Float :=
  let (digits, dropped) := leading n.whole
  let (digits, appended) := appendFraction digits n.fraction
  let shift := (dropped : Int) - appended
  let magnitude :=
    match n.exponent with
    | none => scale (UInt64.ofNat digits).toFloat shift
    | some e =>
      if e.natAbs < Bound.exponent then scale (UInt64.ofNat digits).toFloat (shift + e)
      else if digits ≠ 0 ∧ 0 < e then none
      else some 0
  magnitude.map fun x => if n.negative then -x else x

/-- The text of digits. -/
def digitsText (digits : List (Fin 10)) : List Char := digits.map fun d => Nat.digitChar d.val

/-- The text of a numeral. -/
def text (n : Numeral) : List Char :=
  (if n.negative then ['-'] else []) ++ Nat.toDigits 10 n.whole ++
    (if n.fraction.isEmpty then [] else '.' :: digitsText n.fraction) ++
    (match n.exponent with
      | none => []
      | some e => 'e' :: (toString e).toList)

end Numeral

/-- Single-precision numbers without exponent: up to thirteen digits before the point, or five zeros
behind it. -/
def singleWindow : Decimal.Window := ⟨13, 5⟩

/-- Double-precision numbers without exponent: up to sixteen digits before the point, or four zeros
behind it. -/
def doubleWindow : Decimal.Window := ⟨16, 4⟩

/-- The text of a finite single-precision number. -/
def ofFloat32? (x : Float32) : Option String :=
  Decimal.BinaryFormat.single.scientific singleWindow x.toBits.toNat

/-- The text of a finite double-precision number. -/
def ofFloat? (x : Float) : Option String :=
  Decimal.BinaryFormat.double.scientific doubleWindow x.toBits.toNat

end Spineless.Json
