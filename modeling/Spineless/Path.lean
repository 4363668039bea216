/-!
# Paths

Paths are taken as text. A path is what stands before its components (a slash, or a dot on its own)
and the segments that slashes separate. Empty segments and dots carry nothing, except for a dot at
the front; they are dropped from the end of a parent, and kept where they stand otherwise.
-/

namespace Spineless.Path

/-- The segments of a text that slashes separate; there is always at least one. -/
def segments : List Char → List (List Char)
  | [] => [[]]
  | c :: rest =>
    if c = '/' then [] :: segments rest
    else
      match segments rest with
      | [] => [[c]]
      | segment :: others => (c :: segment) :: others

/-- The text of segments with slashes between them. -/
def join (parts : List (List Char)) : List Char := ['/'].intercalate parts

/-- Whether a segment carries nothing. -/
def isVoid (segment : List Char) : Bool := segment == [] || segment == ['.']

/-- Segments without those at the end that carry nothing. -/
def trimEnd (parts : List (List Char)) : List (List Char) :=
  (parts.reverse.dropWhile isVoid).reverse

/-- What stands before the components of a path, and the rest. -/
def split : List Char → List Char × List Char
  | '/' :: rest => (['/'], rest)
  | ['.'] => (['.'], [])
  | '.' :: '/' :: rest => (['.'], '/' :: rest)
  | cs => ([], cs)

/-- The path without its last component; `none` if it has no component. -/
def parentChars? (path : List Char) : Option (List Char) :=
  let (front, body) := split path
  match trimEnd (segments body) with
  | [] => if front = ['.'] then some [] else none
  | parts => some (front ++ join (trimEnd parts.dropLast))

/-- The path without its last component; `none` if it has no component. -/
def parent? (path : String) : Option String := (parentChars? path.toList).map String.ofList

/-- A path and its parents, for at most `fuel` of them. -/
def ancestorsUpTo : Nat → String → List String
  | 0, _ => []
  | fuel + 1, path =>
    match parent? path with
    | none => [path]
    | some parent => path :: ancestorsUpTo fuel parent

/-- A path, its parent, the parent's parent and so on. A parent is shorter than the path. -/
def ancestors (path : String) : List String := ancestorsUpTo (path.length + 1) path

/-- A name inside a directory. -/
def inside (directory name : String) : String :=
  if directory.isEmpty || directory.endsWith "/" then directory ++ name
  else directory ++ "/" ++ name

end Spineless.Path
