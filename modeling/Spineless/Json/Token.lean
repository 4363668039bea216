import Spineless.Json.Numeral
import Spineless.Text.Quoted

/-!
# The tokens of a JSON text

Brackets, braces, colons, commas, the three words, numbers and strings, separated by white space.
The text of a string token is `none` when one of its escapes names half of a surrogate pair that the
other half does not follow: no text holds such a character.
-/

namespace Spineless.Json

/-- The text of a string; `none` if it holds half of a surrogate pair. -/
abbrev Content := Option String

/-- A token. -/
inductive Token where
  | openBrace | closeBrace | openBracket | closeBracket | colon | comma
  | null | true | false
  /-- A number. -/
  | number (n : Numeral)
  /-- A string. -/
  | string (s : Content)
deriving DecidableEq

namespace Token

/-! ## Reading -/

/-- Whether a character may stand between tokens. -/
def isSpace (c : Char) : Bool := c == ' ' || c == '\t' || c == '\n' || c == '\r'

/-- The value of a decimal digit. -/
def digit? (c : Char) : Option (Fin 10) :=
  if c.isDigit then some ⟨(c.toNat - '0'.toNat) % 10, by omega⟩ else none

/-- The leading decimal digits of a text, and what follows them. -/
def takeDigits : List Char → List (Fin 10) × List Char
  | [] => ([], [])
  | c :: rest =>
    match digit? c with
    | none => ([], c :: rest)
    | some d =>
      let (digits, rest) := takeDigits rest
      (d :: digits, rest)

/-- The number that digits denote. -/
def value (digits : List (Fin 10)) : Nat := digits.foldl (fun n d => 10 * n + d.val) 0

/-- The value of a hexadecimal digit. -/
def hexDigit? (c : Char) : Option Nat :=
  if c.isDigit then some (c.toNat - '0'.toNat)
  else if 'a' ≤ c ∧ c ≤ 'f' then some (c.toNat - 'a'.toNat + 10)
  else if 'A' ≤ c ∧ c ≤ 'F' then some (c.toNat - 'A'.toNat + 10)
  else none

/-- The number written by four hexadecimal digits. -/
def hex4? (a b c d : Char) : Option Nat := do
  return (((← hexDigit? a) * 16 + (← hexDigit? b)) * 16 + (← hexDigit? c)) * 16 + (← hexDigit? d)

/-- The characters of a string, as code points or lone halves of surrogate pairs. -/
abbrev Units := List Nat

/-- The character that a simple escape denotes. -/
def simpleEscape? : Char → Option Char
  | '"' => some '"'
  | '\\' => some '\\'
  | '/' => some '/'
  | 'b' => some '\x08'
  | 'f' => some '\x0c'
  | 'n' => some '\n'
  | 'r' => some '\r'
  | 't' => some '\t'
  | _ => none

/-- The units of a string up to its closing quote, and what follows it. Control characters must be
escaped. -/
def takeUnits : List Char → Option (Units × List Char)
  | [] => none
  | '"' :: rest => some ([], rest)
  | '\\' :: 'u' :: a :: b :: c :: d :: rest => do
    let unit ← hex4? a b c d
    let (units, rest) ← takeUnits rest
    return (unit :: units, rest)
  | '\\' :: e :: rest => do
    let c ← simpleEscape? e
    let (units, rest) ← takeUnits rest
    return (c.toNat :: units, rest)
  | c :: rest =>
    if c.toNat < 0x20 ∨ c = '\\' then none
    else do
      let (units, rest) ← takeUnits rest
      return (c.toNat :: units, rest)

/-- Whether a unit is the first half of a surrogate pair. -/
def isHigh (n : Nat) : Bool := 0xD800 ≤ n && n < 0xDC00

/-- Whether a unit is the second half of a surrogate pair. -/
def isLow (n : Nat) : Bool := 0xDC00 ≤ n && n < 0xE000

/-- The characters of a string; a surrogate pair is one character, half of one is none. -/
def joinPairs? : Units → Option (List Char)
  | [] => some []
  | [n] => if isHigh n || isLow n then none else some [Char.ofNat n]
  | n :: m :: rest =>
    if isHigh n then
      if isLow m then
        (joinPairs? rest).map (Char.ofNat (0x10000 + (n - 0xD800) * 0x400 + (m - 0xDC00)) :: ·)
      else none
    else if isLow n then none
    else (joinPairs? (m :: rest)).map (Char.ofNat n :: ·)

/-- Reads a string behind its opening quote. -/
def takeString (cs : List Char) : Option (Token × List Char) := do
  let (units, rest) ← takeUnits cs
  return (.string ((joinPairs? units).map String.ofList), rest)

/-- Reads an exponent, if one follows. -/
def takeExponent : List Char → Option (Option Int × List Char)
  | [] => some (none, [])
  | c :: rest =>
    if c = 'e' ∨ c = 'E' then
      let (negative, rest) := match rest with
        | '-' :: rest => (Bool.true, rest)
        | '+' :: rest => (Bool.false, rest)
        | _ => (Bool.false, rest)
      match takeDigits rest with
      | ([], _) => none
      | (digits, rest) =>
        let magnitude : Int := value digits
        some (some (if negative then -magnitude else magnitude), rest)
    else some (none, c :: rest)

/-- Reads a fraction, if one follows. -/
def takeFraction : List Char → Option (List (Fin 10) × List Char)
  | '.' :: rest =>
    match takeDigits rest with
    | ([], _) => none
    | (digits, rest) => some (digits, rest)
  | rest => some ([], rest)

/-- Reads the digits before the point; a leading zero stands alone. -/
def takeWhole : List Char → Option (Nat × List Char)
  | '0' :: rest => some (0, rest)
  | cs =>
    match takeDigits cs with
    | ([], _) => none
    | (digits, rest) => some (value digits, rest)

/-- Reads a number behind its sign. -/
def takeNumber (negative : Bool) (cs : List Char) : Option (Token × List Char) := do
  let (whole, rest) ← takeWhole cs
  let (fraction, rest) ← takeFraction rest
  let (exponent, rest) ← takeExponent rest
  return (.number { negative, whole, fraction, exponent }, rest)

/-- Reads the token that starts with a given character. -/
def take (c : Char) (rest : List Char) : Option (Token × List Char) :=
  match c, rest with
  | '\x7b', _ => some (.openBrace, rest)
  | '\x7d', _ => some (.closeBrace, rest)
  | '[', _ => some (.openBracket, rest)
  | ']', _ => some (.closeBracket, rest)
  | ':', _ => some (.colon, rest)
  | ',', _ => some (.comma, rest)
  | '"', _ => takeString rest
  | 'n', 'u' :: 'l' :: 'l' :: rest => some (.null, rest)
  | 't', 'r' :: 'u' :: 'e' :: rest => some (.true, rest)
  | 'f', 'a' :: 'l' :: 's' :: 'e' :: rest => some (.false, rest)
  | '-', _ => takeNumber Bool.true rest
  | _, _ => takeNumber Bool.false (c :: rest)

/-- Reads tokens for at most `fuel` steps, the last one first. -/
def lexOnto : Nat → List Token → List Char → Option (List Token)
  | _, done, [] => some done
  | 0, _, _ :: _ => none
  | fuel + 1, done, c :: rest =>
    if isSpace c then lexOnto fuel done rest
    else
      match take c rest with
      | none => none
      | some (token, rest) => lexOnto fuel (token :: done) rest

/-- The tokens of a text. Every step consumes a character, so there are at most as many steps as
characters. -/
def lex (cs : List Char) : Option (List Token) := (lexOnto cs.length [] cs).map List.reverse

/-! ## Writing -/

/-- A character inside a string: the quote, the backslash and control characters are escaped. -/
def escape (c : Char) : List Char :=
  match c with
  | '"' => ['\\', '"']
  | '\\' => ['\\', '\\']
  | '\x08' => ['\\', 'b']
  | '\x0c' => ['\\', 'f']
  | '\n' => ['\\', 'n']
  | '\r' => ['\\', 'r']
  | '\t' => ['\\', 't']
  | _ => if c.toNat < 0x20 then '\\' :: 'u' :: (Text.hexPadded 4 c.toNat).toList else [c]

/-- The text of a token. -/
def text : Token → List Char
  | .openBrace => ['\x7b']
  | .closeBrace => ['\x7d']
  | .openBracket => ['[']
  | .closeBracket => [']']
  | .colon => [':']
  | .comma => [',']
  | .null => ['n', 'u', 'l', 'l']
  | .true => ['t', 'r', 'u', 'e']
  | .false => ['f', 'a', 'l', 's', 'e']
  | .number n => n.text
  | .string none => ['"', '\\', 'u', 'd', '8', '0', '0', '"']
  | .string (some s) => '"' :: s.toList.flatMap escape ++ ['"']

end Token

end Spineless.Json
