import Spineless.Decimal.Binary

/-!
# The shortest decimal that reads back

A finite binary number owns an interval of reals: those that round to it. Of all decimals in that
interval, `shortest` takes one with the fewest digits and, of those, the one nearest to the number
itself. The search looks at one grid of decimals after the other, each ten times finer than the one
before, and on each grid only at the two neighbours of the number.
-/

namespace Spineless.Decimal

/-- The decimal number `digits · 10 ^ exponent`. -/
structure Scaled where
  /-- The digits, as one natural number. -/
  digits : Nat
  /-- The power of ten that scales them. -/
  exponent : Int
deriving DecidableEq

/-- What to do when two shortest decimals are equally near. -/
inductive Tie where
  /-- Take the larger one. -/
  | up
  /-- Take the one whose last digit is even. -/
  | even
deriving DecidableEq

/-- How many decimal digits `n` has; zero has one. -/
def digitCount (n : Nat) : Nat := (Nat.toDigits 10 n).length

/-- The position `k` of a positive `num / den`: it lies in `10 ^ (k - 1) ≤ num / den < 10 ^ k`. -/
def position (num den : Nat) : Int :=
  if den ≤ num then digitCount (num / den)
  else 1 - digitCount ((num + den - 1) / num - 1)

/-- `digits` without its trailing zeros, which go to the exponent. -/
def Scaled.trim (digits : Nat) (exponent : Int) : Scaled :=
  if h : 0 < digits ∧ digits % 10 = 0 then trim (digits / 10) (exponent + 1)
  else ⟨digits, exponent⟩
termination_by digits
decreasing_by omega

/-- The better neighbour of the number on the grid of multiples of `10 ^ grid`, if one of the two
reads back. Quantities are compared after multiplication by `2 ^ (2 - exponent)`, in quarters of the
last binary place: the number is `4 · significand`, its interval reaches two quarters up and two
quarters down, or one quarter down where the neighbour below is near. -/
def onGrid (tie : Tie) (significand : Nat) (exponent : Int) (nearBelow : Bool) (grid : Int) :
    Option Nat :=
  let unit := pow10 grid.toNat * pow2 (2 - exponent).toNat
  let quarter := pow2 (exponent - 2).toNat * pow10 (-grid).toNat
  let value := 4 * significand * quarter
  let low := value - (if nearBelow then 1 else 2) * quarter
  let high := value + 2 * quarter
  let closed := significand % 2 = 0
  let below := value / unit
  let above := below + 1
  let readsBack (n : Nat) : Bool :=
    if closed then low ≤ n * unit && n * unit ≤ high else low < n * unit && n * unit < high
  match readsBack below, readsBack above with
  | false, false => none
  | true, false => some below
  | false, true => some above
  | true, true =>
    let down := value - below * unit
    let up := above * unit - value
    if down < up then some below
    else if up < down then some above
    else match tie with
      | .up => some above
      | .even => some (if below % 2 = 0 then below else above)

/-- The first grid, from `grid` downwards, on which a neighbour reads back; the last grid tried
answers with the neighbour below. -/
def search (tie : Tie) (significand : Nat) (exponent : Int) (nearBelow : Bool) :
    Nat → Int → Scaled
  | 0, grid =>
    let unit := pow10 grid.toNat * pow2 (-exponent).toNat
    Scaled.trim (significand * pow2 exponent.toNat * pow10 (-grid).toNat / unit) grid
  | tries + 1, grid =>
    match onGrid tie significand exponent nearBelow grid with
    | some digits => Scaled.trim digits grid
    | none => search tie significand exponent nearBelow tries (grid - 1)

/-- Seventeen digits tell any two double-precision numbers apart. -/
def maxDigits : Nat := 17

/-- The shortest decimal that reads back as `significand · 2 ^ exponent`. -/
def shortest (tie : Tie) (significand : Nat) (exponent : Int) (nearBelow : Bool) : Scaled :=
  if significand = 0 then ⟨0, 0⟩
  else
    let top := position (significand * pow2 exponent.toNat) (pow2 (-exponent).toNat)
    search tie significand exponent nearBelow maxDigits (top - 1)

end Spineless.Decimal
