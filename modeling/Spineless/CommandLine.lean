import Spineless.Bound
import Spineless.Runner

/-!
# The command line

`stgi run FILE` runs a program and `stgi help` tells how. Options are long, with the value behind an
equals sign or in the next argument; each is given at most once. What is not understood is a usage
error, which ends with the exit code 2; a request that fails ends with 1.
-/

namespace Spineless.CommandLine

/-- The name and the version of the program. -/
def versionText : String := "stgi 0.1.0"

/-- A short reminder of how the program is used. -/
def usageText : String :=
  "Usage: stgi [--log-level LEVEL] run FILE [--config FILE] [--max-steps N] [--format text|json]"

/-- An argument by its form. -/
inductive Word where
  /-- Two dashes alone: no options follow. -/
  | dashes
  /-- A long option, perhaps with a value behind an equals sign. -/
  | long (name : String) (value : Option String)
  /-- Short options. -/
  | short (letters : List Char)
  /-- Anything else. -/
  | plain (text : String)

/-- The form of an argument. A dash alone is plain. -/
def Word.ofString (s : String) : Word :=
  match s.toList with
  | ['-', '-'] => .dashes
  | '-' :: '-' :: rest =>
    let name := String.ofList (rest.takeWhile (· != '='))
    match rest.dropWhile (· != '=') with
    | [] => .long name none
    | _ :: value => .long name (some (String.ofList value))
  | '-' :: c :: rest => .short (c :: rest)
  | _ => .plain s

/-- The value of an option, given with it or in the next argument, and the arguments that follow. An
argument that looks like an option is no value. -/
def takeValue (value : Option String) (rest : List String) : Option (String × List String) :=
  match value, rest with
  | some v, _ => some (v, rest)
  | none, next :: rest =>
    match Word.ofString next with
    | .plain v => some (v, rest)
    | _ => none
  | none, [] => none

/-- A path, which is not empty. -/
def path? (s : String) : Option String := if s.isEmpty then none else some s

/-- A number in the range of machine words, with or without a plus sign. -/
def number? (s : String) : Option Nat :=
  let digits := match s.toList with
    | '+' :: rest => rest
    | cs => cs
  if digits.isEmpty || !digits.all Char.isDigit then none
  else
    let n := digits.foldl (fun n c => 10 * n + (c.toNat - '0'.toNat)) 0
    if n < Bound.word then some n else none

/-- An output format. -/
def format? : String → Option OutputFormat
  | "text" => some .text
  | "json" => some .json
  | _ => none

/-- The arguments of `run` read so far. -/
structure RunArgs where
  file : Option String := none
  config : Option String := none
  maxSteps : Option Nat := none
  format : Option OutputFormat := none
  logLevel : Option String := none

/-- What the arguments ask for. -/
inductive Request where
  /-- The version of the program. -/
  | version
  /-- A reminder of its use. -/
  | help
  /-- Nothing that is understood. -/
  | usage
  /-- To run a program. -/
  | run (file : String) (options : RunOptions)

/-- A value for what has none yet. -/
def once {α : Type} (present : Option α) (value : Option α) : Option α :=
  if present.isSome then none else value

/-- The arguments with the program file. -/
def RunArgs.addFile (a : RunArgs) (text : String) : Option RunArgs := do
  return { a with file := ← once a.file (path? text) }

/-- The arguments with an option. -/
def RunArgs.addOption (a : RunArgs) (name value : String) : Option RunArgs := do
  match name with
  | "config" => return { a with config := ← once a.config (path? value) }
  | "max-steps" => return { a with maxSteps := ← once a.maxSteps (number? value) }
  | "format" => return { a with format := ← once a.format (format? value) }
  | "log-level" => return { a with logLevel := ← once a.logLevel (some value) }
  | _ => none

/-- Whether an option takes a value behind `run`. -/
def isRunOption (name : String) : Bool :=
  name ∈ ["config", "max-steps", "format", "log-level"]

/-- The request of complete arguments. -/
def RunArgs.request (a : RunArgs) : Request :=
  match a.file with
  | none => .usage
  | some file =>
    .run file { config := a.config, maxSteps := a.maxSteps, format := a.format.getD .text }

/-- Reads the arguments behind `run`, for at most `fuel` of them. -/
def readRun : Nat → RunArgs → List String → Request
  | _, a, [] => a.request
  | 0, _, _ :: _ => .usage
  | fuel + 1, a, word :: rest =>
    match Word.ofString word with
    | .plain text =>
      match a.addFile text with
      | some a => readRun fuel a rest
      | none => .usage
    | .dashes =>
      match rest.foldlM RunArgs.addFile a with
      | some a => a.request
      | none => .usage
    | .long "help" none => .help
    | .long name value =>
      if isRunOption name then
        match takeValue value rest with
        | none => .usage
        | some (value, rest) =>
          match a.addOption name value with
          | some a => readRun fuel a rest
          | none => .usage
      else .usage
    | .short ('h' :: _) => .help
    | .short _ => .usage

/-- Reads the arguments behind `help`, which name a command or nothing. -/
def readHelp : List String → Request
  | [] | ["run"] | ["help"] => .help
  | _ => .usage

/-- Reads all arguments, for at most `fuel` of them. -/
def readTop : Nat → Option String → List String → Request
  | _, _, [] => .usage
  | 0, _, _ :: _ => .usage
  | fuel + 1, logLevel, word :: rest =>
    match Word.ofString word with
    | .plain "run" => readRun rest.length {} rest
    | .plain "help" => readHelp rest
    | .plain _ | .dashes => .usage
    | .long "version" none => .version
    | .long "help" none => .help
    | .long "log-level" value =>
      match takeValue value rest with
      | none => .usage
      | some (value, rest) =>
        if logLevel.isSome then .usage else readTop fuel (some value) rest
    | .long _ _ => .usage
    | .short ('V' :: _) => .version
    | .short ('h' :: _) => .help
    | .short _ => .usage

/-- What the arguments ask for. -/
def request (args : List String) : Request := readTop args.length none args

/-- How the program ends. -/
structure Exit where
  /-- The exit code. -/
  code : UInt32
  /-- What goes to standard output. -/
  stdout : String := ""
  /-- What goes to standard error. -/
  stderr : String := ""

/-- Carries a request out; a program is followed for at most `fuel` transitions. -/
def execute {m : Type → Type} [Monad m] (fs : Files m) (fuel : Nat) (args : List String) :
    m Exit := do
  match request args with
  | .version => return { code := 0, stdout := versionText ++ "\n" }
  | .help => return { code := 0, stdout := usageText ++ "\n" }
  | .usage => return { code := 2, stderr := usageText ++ "\n" }
  | .run file options =>
    match ← Runner.runFile fs fuel file options with
    | .ok output => return { code := 0, stdout := output ++ "\n" }
    | .error e => return { code := 1, stderr := "error: " ++ e.message ++ "\n" }

end Spineless.CommandLine
