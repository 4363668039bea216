import Spineless.Config.Load
import Spineless.Machine
import Spineless.Program.Decode

/-!
# Running a program file

A file holds a program as JSON. Its configuration is a chosen file, or the nearest one at or above
the program's directory; a step budget given with the request overrides the configured one. The
result is shown as text or as a JSON object.
-/

namespace Spineless

/-- How a result is shown. -/
inductive OutputFormat where
  | text | json
deriving DecidableEq

/-- What a request may choose. -/
structure RunOptions where
  /-- The configuration file. -/
  config : Option String := none
  /-- The step budget. -/
  maxSteps : Option Nat := none
  /-- How the result is shown. -/
  format : OutputFormat := .text

/-- Why a request fails. -/
inductive RunError where
  /-- The program file cannot be read. -/
  | unreadable (path : String)
  /-- The program file holds no program. -/
  | program (path : String) (cause : ProgramError)
  /-- There is no configuration. -/
  | config (cause : ConfigError)
  /-- The program failed. -/
  | fault (cause : Fault)
  /-- The program was still running when it was given up. -/
  | unfinished

/-- The wording of the error. -/
def RunError.message : RunError → String
  | .unreadable path => "cannot read " ++ path
  | .program path cause => path ++ ": " ++ cause.message
  | .config cause => cause.message
  | .fault cause => "runtime error: " ++ cause.message
  | .unfinished => "the program did not finish"

namespace Runner

section

variable {m : Type → Type} [Monad m]

/-- The program in a file. -/
def loadProgram (fs : Files m) (path : String) : m (Except RunError Program) := do
  match ← fs.readText path with
  | none => return .error (.unreadable path)
  | some text => return (Program.parse text).mapError (.program path)

/-- The limits for a program file. -/
def resolveConfig (fs : Files m) (path : String) (options : RunOptions) :
    m (Except ConfigError Config) := do
  let loaded ← match options.config with
    | some file => Config.load fs file
    | none => Config.discover fs ((Path.parent? path).getD ".")
  return loaded.map fun config => { config with maxSteps := options.maxSteps.or config.maxSteps }

end

/-- The text of a result. -/
def present (format : OutputFormat) (entry : Ident) (machine : Machine) (atoms : List Atom) :
    String :=
  let rendered := atoms.map machine.render
  match format with
  | .text => "\n".intercalate rendered
  | .json =>
    (Json.Value.ofMembers [
      ("entry", .ofString entry.name),
      ("result", .array (rendered.map .ofString)),
      ("steps", .ofNat machine.steps)]).render

/-- Runs a program on a fresh machine for at most `fuel` transitions. -/
def runProgram (fuel : Nat) (config : Config) (format : OutputFormat) (p : Program) :
    Except RunError String :=
  match (Machine.new config).runProgram fuel p with
  | none => .error .unfinished
  | some (.error e _) => .error (.fault e)
  | some (.ok atoms machine) => .ok (present format p.entry machine atoms)

/-- Runs the program in a file for at most `fuel` transitions. -/
def runFile {m : Type → Type} [Monad m] (fs : Files m) (fuel : Nat) (path : String)
    (options : RunOptions) : m (Except RunError String) := do
  match ← loadProgram fs path with
  | .error e => return .error e
  | .ok p =>
    match ← resolveConfig fs path options with
    | .error e => return .error (.config e)
    | .ok config => return runProgram fuel config options.format p

end Runner

end Spineless
