/-!
# Binary floating-point numbers, taken apart

A bit pattern of an interchange format is a sign and a magnitude. A finite magnitude is written
exactly as `significand · 2 ^ exponent`, so that everything after this module is arithmetic on
natural numbers.
-/

namespace Spineless.Decimal

/-- A power of two. -/
def pow2 (n : Nat) : Nat := Nat.pow 2 n

/-- A power of ten. -/
def pow10 (n : Nat) : Nat := Nat.pow 10 n

/-- An interchange format: how many bits hold the fraction and how many the exponent. -/
structure BinaryFormat where
  /-- Bits of the fraction. -/
  fractionBits : Nat
  /-- Bits of the biased exponent. -/
  exponentBits : Nat
deriving DecidableEq

/-- Single precision. -/
def BinaryFormat.single : BinaryFormat := ⟨23, 8⟩

/-- Double precision. -/
def BinaryFormat.double : BinaryFormat := ⟨52, 11⟩

/-- The magnitude that a bit pattern denotes. -/
inductive Magnitude where
  /-- Not a number. -/
  | nan
  /-- Infinity. -/
  | infinite
  /-- The number `significand · 2 ^ exponent`. At a power of two the next smaller number is only
  half as far away as the next larger one: then `nearBelow` holds. -/
  | finite (significand : Nat) (exponent : Int) (nearBelow : Bool)
deriving DecidableEq

/-- The exponent of a number whose biased exponent is zero, less the width of the fraction. -/
def BinaryFormat.bias (f : BinaryFormat) : Int :=
  pow2 (f.exponentBits - 1) - 1 + f.fractionBits

/-- Whether the sign bit is set. -/
def BinaryFormat.isNegative (f : BinaryFormat) (bits : Nat) : Bool :=
  bits.testBit (f.fractionBits + f.exponentBits)

/-- The magnitude of a bit pattern. -/
def BinaryFormat.magnitude (f : BinaryFormat) (bits : Nat) : Magnitude :=
  let fraction := bits % pow2 f.fractionBits
  let biased := bits / pow2 f.fractionBits % pow2 f.exponentBits
  if biased = pow2 f.exponentBits - 1 then
    if fraction = 0 then .infinite else .nan
  else if biased = 0 then
    .finite fraction (1 - f.bias) false
  else
    .finite (pow2 f.fractionBits + fraction) (biased - f.bias) (fraction = 0 && 1 < biased)

end Spineless.Decimal
