import Spineless.Config
import Spineless.Files
import Spineless.Toml.Document

/-!
# Configuration files

The limits of a machine, read from a TOML file. Each of the three keys may be absent, and then has
its default; a key that is present must be a natural number. Without a chosen file, the nearest
`stg.toml` at or above a directory is taken.
-/

namespace Spineless

/-- Why there is no configuration. -/
inductive ConfigError where
  /-- A file cannot be read. -/
  | unreadable (path : String)
  /-- A file is not a configuration. -/
  | malformed (path : String)
deriving DecidableEq

/-- The wording of the error. -/
def ConfigError.message : ConfigError → String
  | .unreadable path => "cannot read " ++ path
  | .malformed path => "invalid configuration in " ++ path

namespace Config

/-- The name of a configuration file. -/
def fileName : String := "stg.toml"

/-- The natural number of a key, if the key is present; another value is an error. -/
def natural? (t : Toml.Table) (key : String) : Option (Option Nat) :=
  match t.find? key with
  | none => some none
  | some (.integer n) => if 0 ≤ n then some (some n.toNat) else none
  | some _ => none

/-- The limits in a table. -/
def ofTable? (t : Toml.Table) : Option Config := do
  let defaults : Config := {}
  let maxSteps ← natural? t "max_steps"
  let maxStackDepth ← natural? t "max_stack_depth"
  let traceLimit ← natural? t "eval_stack_limit"
  return {
    maxSteps := maxSteps
    maxStackDepth := maxStackDepth.getD defaults.maxStackDepth
    traceLimit := traceLimit.getD defaults.traceLimit }

/-- The limits in the text of a file. -/
def parse (path text : String) : Except ConfigError Config :=
  match (Toml.parse? text).bind ofTable? with
  | some config => .ok config
  | none => .error (.malformed path)

section

variable {m : Type → Type} [Monad m]

/-- The limits in a file. -/
def load (fs : Files m) (path : String) : m (Except ConfigError Config) := do
  match ← fs.readText path with
  | some text => return parse path text
  | none => return .error (.unreadable path)

/-- The first path that is a file. -/
def firstFile? (fs : Files m) : List String → m (Option String)
  | [] => return none
  | path :: rest => do
    if ← fs.isFile path then return some path else firstFile? fs rest

/-- The limits in the nearest configuration file at or above a directory; the defaults if there is
none. -/
def discover (fs : Files m) (directory : String) : m (Except ConfigError Config) := do
  let candidates := (Path.ancestors directory).map (Path.inside · fileName)
  match ← firstFile? fs candidates with
  | some path => load fs path
  | none => return .ok {}

end

end Config

end Spineless
