/-!
# Ranges of machine numbers

Each bound is one more than the largest number of its kind. A signed integer `n` is in range when
`-Bound.int ≤ n < Bound.int`.
-/

namespace Spineless.Bound

/-- Bytes are below 2 to the 8. -/
def byte : Nat := 256

/-- Exponents that are taken for their value are below 2 to the 31. -/
def exponent : Nat := 2147483648

/-- Constructor tags are below 2 to the 32. -/
def tag : Nat := 4294967296

/-- The absolute value of a signed integer is at most 2 to the 63. -/
def int : Nat := 9223372036854775808

/-- Unsigned integers, addresses and counters are below 2 to the 64. -/
def word : Nat := 18446744073709551616

end Spineless.Bound
