import Lexis.Tool.Program

/-!
# The command

Connects the program to the system: the files that a run may read are read first, then the run is
planned, and at last its output is printed and its settings are written.
-/

namespace Lexis.Console

/-- The variables of the environment that the program looks at. -/
def variableNames : List String :=
  ["SERPT_VERBOSE", "SERPT_CONFIG", "SERPT_NO_COLOR", "HOME", "XDG_CONFIG_HOME"]

/-- The number of cores that is assumed. -/
def assumedCores : Nat := 4

/-- What an error of the system means to the program. The system gives its numbers with either
sign. -/
def ioError : IO.Error → IoError
  | .alreadyExists .. => .alreadyExists
  | .inappropriateType _ number _ =>
    if number = 20 || 0 - number = 20 then .notDirectory else .isDirectory
  | .invalidArgument _ number _ =>
    if number = 36 || 0 - number = 36 then .nameTooLong else .nulInName
  | .permissionDenied .. => .refused
  | _ => .notFound

/-- The result of an action on files. -/
def attempt {α : Type} (action : IO α) : IO (Except IoError α) := do
  try return .ok (← action)
  catch e => return .error (ioError e)

/-- The text of a file. -/
def readText (path : Text) : IO (Except IoError Text) := do
  match ← attempt (IO.FS.readBinFile (String.ofList path)) with
  | .error e => return .error e
  | .ok bytes =>
    match Text.decode? bytes with
    | some text => return .ok text
    | none => return .error .notText

/-- Whether a path leads anywhere, from the attempt to read it. -/
def isPresent : Except IoError Text → Bool
  | .ok _ | .error .isDirectory | .error .notText | .error .refused => true
  | .error _ => false

/-- Writes a text to a file, after the directories that lead to it are made. -/
def writeText (path content : Text) : IO (Except IoError Unit) := attempt do
  if let directory :: _ := (Disk.fronts path).tail then
    IO.FS.createDirAll (String.ofList directory)
  IO.FS.writeFile (String.ofList path) (String.ofList content)

/-- Prints an outcome and gives its exit code. -/
def report (outcome : Outcome) : IO UInt32 := do
  IO.print outcome.out
  IO.eprint outcome.err
  return UInt32.ofNat outcome.exit

/-- A run of the program. -/
def run (args : List Text) : IO UInt32 := do
  let set ← variableNames.filterMapM fun name => do
    return (← IO.getEnv name).map fun value => (name, value.toList)
  let env (name : String) : Option Text := set.lookup name
  let files ← (Program.paths env args).mapM fun path => do return (path, ← readText path)
  let world : World := {
    read := fun path => (files.lookup path).getD (.error .notFound)
    isPresent := fun path => (files.lookup path).any isPresent
    env
    cores := assumedCores }
  match Program.plan world args with
  | .error _ => return 101
  | .ok (.done outcome) => report outcome
  | .ok (.save path content) => report (Program.saved path (← writeText path content))

end Lexis.Console

/-- The entry point. -/
def main (args : List String) : IO UInt32 := Lexis.Console.run (args.map String.toList)
