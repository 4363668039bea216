import Spineless.Json.Token

/-!
# JSON values

A value keeps what was written: the order of members, repeated keys, and numbers as numerals. A text
is read by feeding its tokens to a machine that holds the containers still open, so nesting costs no
recursion; a value is written by listing its tokens.
-/

namespace Spineless.Json

/-- A JSON value. -/
inductive Value where
  | null
  | bool (b : Bool)
  | number (n : Numeral)
  | string (s : Content)
  | array (items : List Value)
  | object (members : List (Content × Value))
deriving Inhabited

namespace Value

/-- A string value. -/
def ofString (s : String) : Value := .string (some s)

/-- An integer value. -/
def ofInt (n : Int) : Value := .number (.ofInt n)

/-- An integer value. -/
def ofNat (n : Nat) : Value := ofInt n

/-- An object with given members. -/
def ofMembers (members : List (String × Value)) : Value :=
  .object (members.map fun (key, value) => (some key, value))

/-! ## Writing -/

mutual

/-- The tokens of a value in front of others. -/
def tokensOnto : Value → List Token → List Token
  | .null, rest => .null :: rest
  | .bool b, rest => (if b then .true else .false) :: rest
  | .number n, rest => .number n :: rest
  | .string s, rest => .string s :: rest
  | .array [], rest => .openBracket :: .closeBracket :: rest
  | .array (item :: items), rest =>
    .openBracket :: tokensOnto item (itemTokensOnto items (.closeBracket :: rest))
  | .object [], rest => .openBrace :: .closeBrace :: rest
  | .object ((key, value) :: members), rest =>
    .openBrace :: .string key :: .colon ::
      tokensOnto value (memberTokensOnto members (.closeBrace :: rest))

/-- The tokens of further items, each after a comma. -/
def itemTokensOnto : List Value → List Token → List Token
  | [], rest => rest
  | item :: items, rest => .comma :: tokensOnto item (itemTokensOnto items rest)

/-- The tokens of further members, each after a comma. -/
def memberTokensOnto : List (Content × Value) → List Token → List Token
  | [], rest => rest
  | (key, value) :: members, rest =>
    .comma :: .string key :: .colon :: tokensOnto value (memberTokensOnto members rest)

end

/-- The tokens of a value. -/
def tokens (v : Value) : List Token := v.tokensOnto []

/-- The text of a value, without white space. -/
def render (v : Value) : String := String.ofList (v.tokens.flatMap Token.text)

/-! ## Reading -/

/-- A container that is still open and waits for a value. What it holds so far is kept with the last
one first. -/
inductive Open where
  /-- An array. -/
  | array (before : List Value)
  /-- An object, with the key of the value to come. -/
  | object (before : List (Content × Value)) (key : Content)

/-- What the reader expects. -/
inductive Expected where
  /-- A value. -/
  | value (opens : List Open)
  /-- The first item of an array, or its end. -/
  | firstItem (opens : List Open)
  /-- The first key of an object, or its end. -/
  | firstKey (opens : List Open)
  /-- A further key of an object. -/
  | key (before : List (Content × Value)) (opens : List Open)
  /-- The colon behind a key. -/
  | colon (before : List (Content × Value)) (key : Content) (opens : List Open)
  /-- What follows a complete value: a comma or the end of the innermost container. -/
  | after (v : Value) (opens : List Open)

/-- Reads the first token of a value. -/
def begin (opens : List Open) : Token → Option Expected
  | .null => some (.after .null opens)
  | .true => some (.after (.bool Bool.true) opens)
  | .false => some (.after (.bool Bool.false) opens)
  | .number n => some (.after (.number n) opens)
  | .string s => some (.after (.string s) opens)
  | .openBracket => some (.firstItem opens)
  | .openBrace => some (.firstKey opens)
  | _ => none

/-- Reads a token. -/
def feed : Expected → Token → Option Expected
  | .value opens, token => begin opens token
  | .firstItem opens, .closeBracket => some (.after (.array []) opens)
  | .firstItem opens, token => begin (.array [] :: opens) token
  | .firstKey opens, .closeBrace => some (.after (.object []) opens)
  | .firstKey opens, .string key => some (.colon [] key opens)
  | .key before opens, .string key => some (.colon before key opens)
  | .colon before key opens, .colon => some (.value (.object before key :: opens))
  | .after v (.array before :: opens), .comma => some (.value (.array (v :: before) :: opens))
  | .after v (.array before :: opens), .closeBracket =>
    some (.after (.array (v :: before).reverse) opens)
  | .after v (.object before key :: opens), .comma => some (.key ((key, v) :: before) opens)
  | .after v (.object before key :: opens), .closeBrace =>
    some (.after (.object ((key, v) :: before).reverse) opens)
  | _, _ => none

/-- The value of a complete reading: one value and nothing open. -/
def complete? : Expected → Option Value
  | .after v [] => some v
  | _ => none

/-- The value that tokens denote. -/
def ofTokens? (tokens : List Token) : Option Value := do
  complete? (← tokens.foldlM feed (.value []))

/-- The value that a text denotes. -/
def parse? (text : String) : Option Value := do
  ofTokens? (← Token.lex text.toList)

end Value

end Spineless.Json
