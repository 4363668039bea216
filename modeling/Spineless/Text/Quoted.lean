import Spineless.Text.Printable

/-!
# Character literals

A character in single quotes. The quote, the backslash and four control characters have an escape of
their own, other characters without a glyph are written by their code point, and the double quote
needs no escape.
-/

namespace Spineless.Text

/-- A natural number in lower-case hexadecimal. -/
def hex (n : Nat) : String := String.ofList (Nat.toDigits 16 n)

/-- A natural number in lower-case hexadecimal, filled up with zeros to at least `width` digits. -/
def hexPadded (width n : Nat) : String :=
  let digits := Nat.toDigits 16 n
  String.ofList (List.replicate (width - digits.length) '0' ++ digits)

/-- A character as it stands between the quotes of a character literal. -/
def escapeChar (c : Char) : String :=
  if c = '\x00' then "\\0"
  else if c = '\t' then "\\t"
  else if c = '\n' then "\\n"
  else if c = '\r' then "\\r"
  else if c = '\'' then "\\'"
  else if c = '\\' then "\\\\"
  else if isPrintable c then String.singleton c
  else "\\u\x7b" ++ hex c.toNat ++ "\x7d"

/-- A character literal. -/
def quoteChar (c : Char) : String := "'" ++ escapeChar c ++ "'"

end Spineless.Text
