import Spineless.Decimal.Shortest

/-!
# Decimal text of floating-point numbers

Two ways of writing a number down. `plain` never uses an exponent and writes an integral value
without a point; `scientific` switches to an exponent outside a window of magnitudes and always
shows that the number is not an integer.
-/

namespace Spineless.Decimal

/-- A run of `n` zeros. -/
def zeros (n : Nat) : String := String.ofList (List.replicate n '0')

/-- The text of `digits · 10 ^ exponent` without an exponent. -/
def Scaled.positional (d : Scaled) : String :=
  let text := Nat.toDigits 10 d.digits
  if 0 ≤ d.exponent then String.ofList text ++ zeros d.exponent.toNat
  else
    let point := (text.length : Int) + d.exponent
    if 0 < point then
      String.ofList (text.take point.toNat) ++ "." ++ String.ofList (text.drop point.toNat)
    else "0." ++ zeros (-point).toNat ++ String.ofList text

/-- The text of `digits · 10 ^ exponent` with one digit before the point and an exponent. -/
def Scaled.withExponent (d : Scaled) : String :=
  let text := Nat.toDigits 10 d.digits
  let exponent := (text.length : Int) + d.exponent - 1
  let mantissa := match text with
    | [] => ""
    | [c] => String.singleton c
    | c :: rest => String.singleton c ++ "." ++ String.ofList rest
  mantissa ++ "e" ++ toString exponent

/-- The sign of a bit pattern, as text. -/
def BinaryFormat.signText (f : BinaryFormat) (bits : Nat) : String :=
  if f.isNegative bits then "-" else ""

/-- A bit pattern as plain decimal text: the fewest digits that read back, never an exponent. -/
def BinaryFormat.plain (f : BinaryFormat) (bits : Nat) : String :=
  match f.magnitude bits with
  | .nan => "NaN"
  | .infinite => f.signText bits ++ "inf"
  | .finite significand exponent nearBelow =>
    f.signText bits ++ (shortest .up significand exponent nearBelow).positional

/-- The window of magnitudes that `scientific` writes without an exponent: the point stands after at
most `last` digits, or before at most `leading` zeros. -/
structure Window where
  /-- The most digits before the point. -/
  last : Int
  /-- The most zeros right behind the point. -/
  leading : Int
deriving DecidableEq

/-- A finite bit pattern with the fewest digits that read back, with an exponent outside `window`;
`none` if the pattern is not finite. -/
def BinaryFormat.scientific (f : BinaryFormat) (window : Window) (bits : Nat) : Option String :=
  match f.magnitude bits with
  | .nan | .infinite => none
  | .finite significand exponent nearBelow =>
    let d := shortest .even significand exponent nearBelow
    let point := (digitCount d.digits : Int) + d.exponent
    let text :=
      if 0 ≤ d.exponent ∧ point ≤ window.last then d.positional ++ ".0"
      else if -window.leading ≤ point ∧ point ≤ window.last then d.positional
      else d.withExponent
    some (f.signText bits ++ text)

/-- Plain text of a single-precision number. -/
def ofFloat32 (x : Float32) : String := BinaryFormat.single.plain x.toBits.toNat

/-- Plain text of a double-precision number. -/
def ofFloat (x : Float) : String := BinaryFormat.double.plain x.toBits.toNat

end Spineless.Decimal
