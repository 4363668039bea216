import Spineless.Bound
import Spineless.Decimal.Shortest
import Spineless.Json.Token
import Spineless.Toml.Table

/-!
# Scalars in a TOML text

Strings of four kinds, numbers in four bases, and dates and times. Every reader takes a scalar from
the front of a text and gives what follows it; `none` means that the text is not well formed.
-/

namespace Spineless.Toml

/-- What a reader takes from a text, and what follows. -/
abbrev Taken (α : Type) := α × List Char

/-! ## White space and comments -/

/-- Whether a character is a blank. -/
def isBlank (c : Char) : Bool := c == ' ' || c == '\t'

/-- Whether a character may stand in comments and strings as it is. -/
def isPlain (c : Char) : Bool := c == '\t' || (0x20 ≤ c.toNat && c.toNat != 0x7f)

/-- The text behind leading blanks. -/
def skipBlanks (cs : List Char) : List Char := cs.dropWhile isBlank

/-- The text behind a line break, if it starts with one. -/
def newline? : List Char → Option (List Char)
  | '\n' :: rest => some rest
  | '\r' :: '\n' :: rest => some rest
  | _ => none

/-- The text behind a comment, if it starts with one. The end of the line is not part of it. -/
def skipComment : List Char → List Char
  | '#' :: rest => rest.dropWhile isPlain
  | cs => cs

/-- The text behind blanks, line breaks and comments, for at most `fuel` of them. -/
def skipLayout : Nat → List Char → List Char
  | 0, cs => cs
  | fuel + 1, cs =>
    let cs := skipComment (skipBlanks cs)
    match newline? cs with
    | some rest => skipLayout fuel rest
    | none => cs

/-! ## Strings -/

/-- The number written by hexadecimal digits. -/
def hexValue? (digits : List Char) : Option Nat :=
  digits.foldlM (fun n c => return 16 * n + (← Json.Token.hexDigit? c)) 0

/-- The character with a code point written by hexadecimal digits. -/
def scalarValue? (digits : List Char) : Option Char := do
  let n ← hexValue? digits
  if n.isValidChar then some (Char.ofNat n) else none

/-- The character of an escape behind its backslash. -/
def takeEscape : List Char → Option (Taken Char)
  | 'b' :: rest => some ('\x08', rest)
  | 't' :: rest => some ('\t', rest)
  | 'n' :: rest => some ('\n', rest)
  | 'f' :: rest => some ('\x0c', rest)
  | 'r' :: rest => some ('\r', rest)
  | '"' :: rest => some ('"', rest)
  | '\\' :: rest => some ('\\', rest)
  | 'u' :: rest => do
    guard (4 ≤ rest.length)
    return (← scalarValue? (rest.take 4), rest.drop 4)
  | 'U' :: rest => do
    guard (8 ≤ rest.length)
    return (← scalarValue? (rest.take 8), rest.drop 8)
  | _ => none

/-- A basic string behind its opening quote. -/
def takeBasic : Nat → List Char → Option (Taken (List Char))
  | _, [] => none
  | 0, _ => none
  | _ + 1, '"' :: rest => some ([], rest)
  | fuel + 1, '\\' :: rest => do
    let (c, rest) ← takeEscape rest
    let (cs, rest) ← takeBasic fuel rest
    return (c :: cs, rest)
  | fuel + 1, c :: rest => do
    guard (isPlain c)
    let (cs, rest) ← takeBasic fuel rest
    return (c :: cs, rest)

/-- A literal string behind its opening quote. -/
def takeLiteral : List Char → Option (Taken (List Char))
  | [] => none
  | '\'' :: rest => some ([], rest)
  | c :: rest => do
    guard (isPlain c)
    let (cs, rest) ← takeLiteral rest
    return (c :: cs, rest)

/-- The text behind blanks and line breaks. -/
def skipSpace : List Char → List Char
  | [] => []
  | '\r' :: '\n' :: rest => skipSpace rest
  | c :: rest => if isBlank c || c == '\n' then skipSpace rest else c :: rest

/-- A string of several lines behind its opening quotes. Three to five quotes in a row end it, and
all but the last three belong to it. In a string with escapes, a backslash at the end of a line
removes the line break and the space that follows. -/
def takeMultiline (quote : Char) (escapes : Bool) : Nat → List Char → Option (Taken (List Char))
  | _, [] => none
  | 0, _ => none
  | fuel + 1, c :: rest =>
    if c = quote then
      let run := (c :: rest).takeWhile (· == quote)
      let behind := (c :: rest).drop run.length
      if 3 ≤ run.length then
        if run.length ≤ 5 then some (run.drop 3, behind) else none
      else do
        let (cs, rest) ← takeMultiline quote escapes fuel behind
        return (run ++ cs, rest)
    else
      match newline? (c :: rest) with
      | some rest => do
        let (cs, rest) ← takeMultiline quote escapes fuel rest
        return ('\n' :: cs, rest)
      | none =>
        if escapes && c == '\\' then
          match newline? (skipBlanks rest) with
          | some rest => takeMultiline quote escapes fuel (skipSpace rest)
          | none => do
            let (c, rest) ← takeEscape rest
            let (cs, rest) ← takeMultiline quote escapes fuel rest
            return (c :: cs, rest)
        else do
          guard (isPlain c)
          let (cs, rest) ← takeMultiline quote escapes fuel rest
          return (c :: cs, rest)

/-- The text behind a line break that follows opening quotes. -/
def skipFirstNewline (cs : List Char) : List Char := (newline? cs).getD cs

/-- A string of one line, as it may stand in a key. -/
def takeQuoted : List Char → Option (Taken String)
  | '"' :: rest => do
    let (cs, rest) ← takeBasic (rest.length + 1) rest
    return (String.ofList cs, rest)
  | '\'' :: rest => do
    let (cs, rest) ← takeLiteral rest
    return (String.ofList cs, rest)
  | _ => none

/-- A string of any kind. -/
def takeString : List Char → Option (Taken String)
  | '"' :: '"' :: '"' :: rest => do
    let rest := skipFirstNewline rest
    let (cs, rest) ← takeMultiline '"' true (rest.length + 1) rest
    return (String.ofList cs, rest)
  | '\'' :: '\'' :: '\'' :: rest => do
    let rest := skipFirstNewline rest
    let (cs, rest) ← takeMultiline '\'' false (rest.length + 1) rest
    return (String.ofList cs, rest)
  | cs => takeQuoted cs

/-! ## Numbers -/

/-- Whether a character is a digit of a base. -/
def isDigitOf (base : Nat) (c : Char) : Bool :=
  match Json.Token.hexDigit? c with
  | some n => n < base
  | none => false

/-- Further digits, each of which may follow an underscore. -/
def takeMoreDigits (base : Nat) : List Char → Option (Taken (List Char))
  | '_' :: c :: rest => do
    guard (isDigitOf base c)
    let (digits, rest) ← takeMoreDigits base rest
    return (c :: digits, rest)
  | ['_'] => none
  | c :: rest =>
    if isDigitOf base c then do
      let (digits, rest) ← takeMoreDigits base rest
      return (c :: digits, rest)
    else some ([], c :: rest)
  | [] => some ([], [])

/-- One or more digits, in which single underscores may stand between digits. -/
def takeDigits (base : Nat) : List Char → Option (Taken (List Char))
  | c :: rest => do
    guard (isDigitOf base c)
    let (digits, rest) ← takeMoreDigits base rest
    return (c :: digits, rest)
  | [] => none

/-- The number written by digits of a base. -/
def digitsValue (base : Nat) (digits : List Char) : Nat :=
  digits.foldl (fun n c => base * n + (Json.Token.hexDigit? c).getD 0) 0

/-- An integer in the range of signed machine integers. -/
def integer? (n : Int) : Option Item :=
  if -Bound.int ≤ n ∧ n < Bound.int then some (.integer n) else none

/-- An integer in a base other than ten, behind its mark. -/
def takeBased (base : Nat) (cs : List Char) : Option (Taken Item) := do
  let (digits, rest) ← takeDigits base cs
  return (← integer? (digitsValue base digits), rest)

/-- Whether `mantissa · 10 ^ exponent` rounds to infinity in double precision: it is at least half a
unit beyond the largest number. -/
def isHuge (mantissa : Nat) (exponent : Int) : Bool :=
  let position := (Decimal.digitCount mantissa : Int) + exponent
  if mantissa = 0 ∨ position < 309 then false
  else if 309 < position then true
  else
    (Decimal.pow2 54 - 1) * Decimal.pow2 970 * Decimal.pow10 (-exponent).toNat ≤
      mantissa * Decimal.pow10 exponent.toNat

/-- A sign, if there is one. -/
def takeSign : List Char → Bool × List Char
  | '-' :: rest => (true, rest)
  | '+' :: rest => (false, rest)
  | cs => (false, cs)

/-- The digits before a point; a leading zero stands alone. -/
def takeWhole : List Char → Option (Taken (List Char))
  | '0' :: rest => some (['0'], rest)
  | cs => takeDigits 10 cs

/-- The exponent of a number. -/
def takeExponent (cs : List Char) : Option (Taken (Option Int)) :=
  match cs with
  | c :: rest =>
    if c = 'e' ∨ c = 'E' then do
      let (negative, rest) := takeSign rest
      let (digits, rest) ← takeDigits 10 rest
      let n : Int := digitsValue 10 digits
      return (some (if negative then -n else n), rest)
    else some (none, cs)
  | [] => some (none, [])

/-- The fraction of a number. -/
def takeFraction : List Char → Option (Taken (List Char))
  | '.' :: rest => takeDigits 10 rest
  | cs => some ([], cs)

/-- What was taken from the front of a text. -/
def takenText (before after : List Char) : String :=
  String.ofList (before.take (before.length - after.length))

/-- A decimal number: an integer, or a floating-point number that is not too large. -/
def takeDecimal (cs : List Char) : Option (Taken Item) := do
  let (negative, rest) := takeSign cs
  let (whole, rest) ← takeWhole rest
  let (fraction, rest) ← takeFraction rest
  let (exponent, rest) ← takeExponent rest
  if fraction.isEmpty && exponent.isNone then
    let n : Int := digitsValue 10 whole
    return (← integer? (if negative then -n else n), rest)
  else
    let mantissa := digitsValue 10 (whole ++ fraction)
    guard (negative || !isHuge mantissa (exponent.getD 0 - fraction.length))
    return (.float (takenText cs rest), rest)

/-- A number in any base, infinity or the value that is no number. -/
def takeNumber (cs : List Char) : Option (Taken Item) :=
  match cs with
  | '0' :: 'x' :: rest => takeBased 16 rest
  | '0' :: 'o' :: rest => takeBased 8 rest
  | '0' :: 'b' :: rest => takeBased 2 rest
  | _ =>
    match (takeSign cs).2 with
    | 'i' :: 'n' :: 'f' :: rest | 'n' :: 'a' :: 'n' :: rest =>
      some (.float (takenText cs rest), rest)
    | _ => takeDecimal cs

/-! ## Dates and times -/

/-- A number of exactly `count` digits. -/
def takeFixed : Nat → Nat → List Char → Option (Taken Nat)
  | 0, n, cs => some (n, cs)
  | count + 1, n, c :: rest =>
    match Json.Token.digit? c with
    | some d => takeFixed count (10 * n + d.val) rest
    | none => none
  | _ + 1, _, [] => none

/-- A number of two digits in a range. -/
def takeTwo (low high : Nat) (cs : List Char) : Option (Taken Nat) := do
  let (n, rest) ← takeFixed 2 0 cs
  guard (low ≤ n ∧ n ≤ high)
  return (n, rest)

/-- A given character. -/
def expect (c : Char) : List Char → Option (List Char)
  | d :: rest => if d = c then some rest else none
  | [] => none

/-- The days of a month. -/
def daysIn (year month : Nat) : Nat :=
  if month = 2 then
    if year % 4 = 0 ∧ (year % 100 ≠ 0 ∨ year % 400 = 0) then 29 else 28
  else if month ∈ [4, 6, 9, 11] then 30
  else 31

/-- The text behind a date. -/
def takeDate (cs : List Char) : Option (List Char) := do
  let (year, rest) ← takeFixed 4 0 cs
  let (month, rest) ← takeTwo 1 12 (← expect '-' rest)
  let (_, rest) ← takeTwo 1 (daysIn year month) (← expect '-' rest)
  return rest

/-- The text behind a time of day; a minute may have a leap second. -/
def takeTime (cs : List Char) : Option (List Char) := do
  let (_, rest) ← takeTwo 0 23 cs
  let (_, rest) ← takeTwo 0 59 (← expect ':' rest)
  let (_, rest) ← takeTwo 0 60 (← expect ':' rest)
  match rest with
  | '.' :: fraction =>
    guard (fraction.head?.any Char.isDigit)
    return fraction.dropWhile Char.isDigit
  | _ => return rest

/-- The text behind an offset from universal time, if there is one. -/
def takeOffset : List Char → Option (List Char)
  | 'Z' :: rest | 'z' :: rest => some rest
  | c :: rest =>
    if c = '+' ∨ c = '-' then do
      let (_, rest) ← takeTwo 0 23 rest
      let (_, rest) ← takeTwo 0 59 (← expect ':' rest)
      return rest
    else some (c :: rest)
  | [] => some []

/-- Whether a text starts with so many digits and then a mark. -/
def startsMoment (count : Nat) (mark : Char) (cs : List Char) : Bool :=
  (cs.take count).length = count && (cs.take count).all Char.isDigit &&
    (cs.drop count).head? == some mark

/-- A date, a time, or both with or without an offset. -/
def takeMoment (cs : List Char) : Option (Taken Item) := do
  let rest ←
    if startsMoment 4 '-' cs then do
      let rest ← takeDate cs
      match rest with
      | c :: time =>
        if c ∈ ['T', 't', ' '] ∧ startsMoment 2 ':' time then takeOffset (← takeTime time)
        else some rest
      | [] => some []
    else takeTime cs
  return (.moment (takenText cs rest), rest)

/-- A scalar of any kind. -/
def takeScalar (cs : List Char) : Option (Taken Item) :=
  match cs with
  | '"' :: _ | '\'' :: _ => do
    let (s, rest) ← takeString cs
    return (.string s, rest)
  | 't' :: 'r' :: 'u' :: 'e' :: rest => some (.boolean true, rest)
  | 'f' :: 'a' :: 'l' :: 's' :: 'e' :: rest => some (.boolean false, rest)
  | _ => if startsMoment 4 '-' cs || startsMoment 2 ':' cs then takeMoment cs else takeNumber cs

end Spineless.Toml
