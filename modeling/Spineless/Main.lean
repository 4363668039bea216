import Spineless.CommandLine

/-!
# The program

Connects the command line to the files and streams of the host.
-/

namespace Spineless

/-- The contents of a file of the host, if it can be read and is text. -/
def readHostText (path : String) : IO (Option String) := do
  try
    return String.fromUTF8? (← IO.FS.readBinFile path)
  catch _ => return none

/-- Access to the files of the host. A file is what can be opened and read to its end. -/
def hostFiles : Files IO where
  readText := readHostText
  isFile path := do
    try
      let _ ← IO.FS.readBinFile path
      return true
    catch _ => return false

/-- More transitions than any run will take. -/
def hostFuel : Nat := 4611686018427387904

end Spineless

open Spineless in
/-- Runs the command line and ends with its exit code. -/
def main (args : List String) : IO UInt32 := do
  let exit ← CommandLine.execute hostFiles hostFuel args
  IO.print exit.stdout
  IO.eprint exit.stderr
  return exit.code
