import Spineless.Path

/-!
# Files

What the program needs of a file system, as two operations in some monad: reading a text, and asking
whether a path is a file. `FileTree` provides them for files held in memory.
-/

namespace Spineless

/-- Access to files. -/
structure Files (m : Type → Type) where
  /-- The contents of a file; `none` if it cannot be read or is not text. -/
  readText : String → m (Option String)
  /-- Whether a path is a file. -/
  isFile : String → m Bool

/-- What stands at a path. -/
inductive Node where
  /-- A file with its bytes. -/
  | file (bytes : ByteArray)
  /-- A directory. -/
  | directory

/-- Files in memory, by the components of their paths. The directories on the way to an entry exist
as well. -/
structure FileTree where
  /-- The entries. -/
  entries : List (List String × Node) := []

namespace FileTree

/-- The components of a relative path. -/
def components (path : String) : List String :=
  (Path.segments path.toList).map String.ofList

/-- Adds an entry. -/
def add (t : FileTree) (path : String) (node : Node) : FileTree :=
  ⟨t.entries ++ [((components path).filter fun c => c != "" && c != ".", node)]⟩

/-- What stands at a place. -/
def node? (t : FileTree) (place : List String) : Option Node :=
  match t.entries.find? (·.1 == place) with
  | some (_, node) => some node
  | none =>
    if place.isEmpty || t.entries.any fun entry => place.isPrefixOf entry.1 then some .directory
    else none

/-- Walks on from a place, which must be a directory. -/
def walk (t : FileTree) : List String → List String → Option (List String)
  | place, [] => some place
  | place, c :: rest =>
    match t.node? place with
    | some .directory =>
      if c = "" ∨ c = "." then walk t place rest
      else if c = ".." then
        if place.isEmpty then none else walk t place.dropLast rest
      else walk t (place ++ [c]) rest
    | _ => none

/-- What a relative path leads to. -/
def lookup? (t : FileTree) (path : String) : Option Node :=
  if path.isEmpty || path.startsWith "/" then none
  else do t.node? (← t.walk [] (components path))

/-- Access to the files of the tree. -/
def files (t : FileTree) : Files Id where
  readText path :=
    match t.lookup? path with
    | some (.file bytes) => String.fromUTF8? bytes
    | _ => none
  isFile path :=
    match t.lookup? path with
    | some (.file _) => true
    | _ => false

end FileTree

end Spineless
