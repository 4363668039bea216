import Spineless.Toml.Scalar

/-!
# TOML documents

A document is a sequence of lines: blank, a comment, a key with its value, or the header of a table.
Values nest to a limited depth, which is also what the recursion on them ends by.
-/

namespace Spineless.Toml

/-! ## Keys -/

/-- Whether a character may stand in a key without quotes. -/
def isBare (c : Char) : Bool := c.isAlphanum || c == '_' || c == '-'

/-- One part of a key. -/
def takeKeyPart (cs : List Char) : Option (Taken String) :=
  match cs with
  | '"' :: _ | '\'' :: _ => takeQuoted cs
  | _ =>
    match cs.takeWhile isBare with
    | [] => none
    | part => some (String.ofList part, cs.dropWhile isBare)

/-- The most parts that a key may have, and the most levels to which values may nest, less one. -/
def depthLimit : Nat := 80

/-- A key with blanks around its parts, which dots separate; at most `parts` of them. -/
def takeKeyParts : Nat → List Char → Option (Taken (List String))
  | 0, _ => none
  | parts + 1, cs => do
    let (part, rest) ← takeKeyPart (skipBlanks cs)
    match skipBlanks rest with
    | '.' :: rest =>
      let (more, rest) ← takeKeyParts parts rest
      return (part :: more, rest)
    | rest => return ([part], rest)

/-- A key: the path to a table, and the last part. -/
def takeKey (cs : List Char) : Option (Taken (List String × String)) := do
  let (parts, rest) ← takeKeyParts (depthLimit - 1) cs
  return ((parts.dropLast, parts.getLast?.getD ""), rest)

/-! ## Values -/

/-- The items of an array behind its opening bracket, with commas between them and one allowed
behind the last. -/
def takeItems (item : List Char → Option (Taken Item)) :
    Nat → List Char → Option (Taken (List Item))
  | 0, _ => none
  | fuel + 1, cs =>
    match skipLayout cs.length cs with
    | ']' :: rest => some ([], rest)
    | cs => do
      let (x, rest) ← item cs
      match skipLayout rest.length rest with
      | ',' :: rest =>
        let (xs, rest) ← takeItems item fuel rest
        return (x :: xs, rest)
      | ']' :: rest => return ([x], rest)
      | _ => none

/-- A key with its value. -/
def takeKeyValue (item : List Char → Option (Taken Item)) (cs : List Char) :
    Option (Taken (List String × String × Item)) := do
  let ((path, key), rest) ← takeKey cs
  let (x, rest) ← item (skipBlanks (← expect '=' rest))
  return ((path, key, x), rest)

/-- The entries of an inline table behind a brace or a comma, added to those before. -/
def takeEntries (item : List Char → Option (Taken Item)) :
    Nat → Table → List Char → Option (Taken Table)
  | 0, _, _ => none
  | fuel + 1, t, cs => do
    let ((path, key, x), rest) ← takeKeyValue item cs
    let t ← t.insert .inline path key x
    match skipBlanks rest with
    | ',' :: rest => takeEntries item fuel t rest
    | '\x7d' :: rest => return (t, rest)
    | _ => none

/-- A value inside a number of further levels. -/
def takeValue : Nat → List Char → Option (Taken Item)
  | depth, '[' :: rest =>
    match depth with
    | 0 => none
    | depth + 1 => do
      let (items, rest) ← takeItems (takeValue depth) (rest.length + 1) rest
      return (.array items, rest)
  | depth, '\x7b' :: rest =>
    match depth with
    | 0 => none
    | depth + 1 =>
      match skipBlanks rest with
      | '\x7d' :: rest => some (.inline .empty, rest)
      | _ => do
        let (t, rest) ← takeEntries (takeValue depth) (rest.length + 1) .empty rest
        return (.inline t, rest)
  | _, cs => takeScalar cs

/-! ## Lines -/

/-- A document read so far: its root table, and the path of the latest header. -/
structure Document where
  /-- The root table. -/
  root : Table := .empty
  /-- The path of the table that keys are added to. -/
  current : List String := []

/-- What a line says. -/
inductive Line where
  /-- Nothing. -/
  | blank
  /-- A key with its value. -/
  | entry (path : List String) (key : String) (item : Item)
  /-- The header of a table. -/
  | header (path : List String) (key : String)
  /-- The header of a table in an array. -/
  | arrayHeader (path : List String) (key : String)

/-- Adds a line to a document. -/
def Document.add (d : Document) : Line → Option Document
  | .blank => some d
  | .entry path key item => do
    let root ← Table.descend .header (Table.insert .dotted path key item) d.current d.root
    return { d with root }
  | .header path key => do return ⟨← d.root.define path key, path ++ [key]⟩
  | .arrayHeader path key => do return ⟨← d.root.append path key, path ++ [key]⟩

/-- What a line says, up to the blanks and the comment at its end. -/
def takeLine (cs : List Char) : Option (Taken Line) :=
  match cs with
  | [] | '#' :: _ | '\n' :: _ | '\r' :: _ => some (.blank, cs)
  | '[' :: '[' :: rest => do
    let ((path, key), rest) ← takeKey rest
    return (.arrayHeader path key, ← expect ']' (← expect ']' rest))
  | '[' :: rest => do
    let ((path, key), rest) ← takeKey rest
    return (.header path key, ← expect ']' rest)
  | _ => do
    let ((path, key, item), rest) ← takeKeyValue (takeValue (depthLimit - 1)) cs
    return (.entry path key item, rest)

/-- Reads the lines of a text, at most `fuel` of them. -/
def readLines : Nat → Document → List Char → Option Document
  | 0, _, _ => none
  | fuel + 1, d, cs => do
    let (line, rest) ← takeLine (skipBlanks cs)
    let d ← d.add line
    match skipComment (skipBlanks rest) with
    | [] => some d
    | rest => readLines fuel d (← newline? rest)

/-- The root table of a text, which may start with a byte order mark. -/
def parse? (text : String) : Option Table :=
  let cs := match text.toList with
    | '\ufeff' :: rest => rest
    | cs => cs
  (readLines (cs.length + 1) {} cs).map Document.root

end Spineless.Toml
