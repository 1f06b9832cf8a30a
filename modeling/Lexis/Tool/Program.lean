import Lexis.Tool.Check
import Lexis.Tool.CommandLine
import Lexis.Tool.Disk
import Lexis.Tool.Listing

/-!
# The program

A run of the tool reads its command line, then its settings, and then does what it was asked to.
It sees the world through `World`: files to read, variables of the environment and the number of
cores. The one effect on the world, the writing of settings, is planned and left to the caller,
who tells how it went.

* `Program.plan`: what a run prints, or what it wants to write.
* `Program.saved`: what a run prints after it has written, or failed to.
* `Program.runOn`: a whole run on a disk.
-/

namespace Lexis

/-- What a run sees of the world. -/
structure World where
  /-- The text of a file. -/
  read : Text → Except IoError Text
  /-- Whether a path leads anywhere. -/
  isPresent : Text → Bool
  /-- The variables of the environment. -/
  env : CommandLine.Environment
  /-- The number of cores. -/
  cores : Nat

/-- What a run leaves behind. -/
structure Outcome where
  /-- The exit code. -/
  exit : Nat := 0
  /-- What is printed. -/
  out : String := ""
  /-- What is printed beside it: diagnostics and failures. -/
  err : String := ""
  deriving DecidableEq, Repr

namespace Outcome

/-- The outcome of a failure, after what has been printed. -/
def failed (f : Failure) (out err : String := "") : Outcome :=
  ⟨1, out, err ++ "Error: " ++ f.describe ++ "\n"⟩

/-- The outcome of a command, after what it has printed. -/
def of (result : Except Failure Unit) (out err : String) : Outcome :=
  match result with
  | .ok () => ⟨0, out, err⟩
  | .error f => failed f out err

end Outcome

namespace Program

/-- The name and the version of the program, with that of a command behind its name. -/
def version (command? : Option CommandLine.Command) : String :=
  "serpt" ++ (command?.map fun c => "-" ++ c.name).getD "" ++ " 0.1.0\n"

/-- The outcome of a command line that asks for no command. -/
def stopped : CommandLine.Stop → Outcome
  | .misuse => { exit := 2 }
  | .help => {}
  | .version command? => { out := version command? }

/-! ## Settings -/

/-- The name of the file with the settings. -/
def settingsName : Text := "serpt.toml".toList

/-- The paths on which settings are looked for, in this order: the current directory, the
directory for settings under the home of the user, and the one that the environment names. -/
def settingsPaths (env : CommandLine.Environment) : List Text :=
  let home? := (env "HOME").filter (!·.isEmpty)
  let shared? := (env "XDG_CONFIG_HOME").filter (·.head? = some '/')
  let homeSettings? := home?.map (Disk.join · ".config".toList)
  let more := homeSettings?.toList ++ (shared?.or homeSettings?).toList
  settingsName :: more.map fun directory =>
    Disk.join (Disk.join directory "serpt".toList) settingsName

/-- The settings in a file. -/
def loadFrom (w : World) (path : Text) : Except Failure Settings :=
  if !w.isPresent path then .error (.settingsMissing (String.ofList path))
  else match w.read path with
    | .error e => .error (.settingsAccess e)
    | .ok document =>
      match Settings.ofToml? w.cores document with
      | some settings => .ok settings
      | none => .error .settingsInvalid

/-- The settings in the file that is asked for, or in the first that is found. -/
def load (w : World) (path? : Option Text) : Except Failure Settings :=
  match path?.or ((settingsPaths w.env).find? w.isPresent) with
  | some path => loadFrom w path
  | none => .ok (Settings.defaults w.cores)

/-! ## Commands -/

/-- What a run has come to. -/
inductive Plan where
  /-- It is over. -/
  | done (outcome : Outcome)
  /-- A text is to be written to a file. -/
  | save (path content : Text)
  deriving DecidableEq, Repr

/-- The given files with their texts. -/
def inputs (w : World) (files : List Text) : List Input :=
  files.map fun path => ⟨String.ofList path, w.read path⟩

/-- The outcome of listing tokens. -/
def runTokens (o : Listing.Options) (inputs : List Input) : Checked Outcome :=
  (Listing.render o inputs).map fun r => Outcome.of r.result r.out r.report

/-- The outcome of checking files. -/
def runCheck (o : CheckSettings) (inputs : List Input) : Checked Outcome :=
  (Check.checkAll o inputs).map fun
    | .error f => Outcome.failed f
    | .ok entries =>
      let summary := Check.tally entries
      let result := if summary.failed = 0 then .ok () else .error (.rejected summary.failed)
      Outcome.of result summary.display (Check.rendering o.maxErrors entries)

/-- The settings for checking files with what the command line says. -/
def override (settings : CheckSettings) (noRecover : Bool) (maxErrors? jobs? : Option Nat)
    (noRoundtrip : Bool) : CheckSettings where
  recover := settings.recover && !noRecover
  maxErrors := maxErrors?.getD settings.maxErrors
  verifyRoundtrip := settings.verifyRoundtrip && !noRoundtrip
  jobs := jobs?.getD settings.jobs

/-- What an action comes to under some settings. -/
def perform (w : World) (settings : Settings) : CommandLine.Action → Checked Plan
  | .tokens files visible format? =>
    (runTokens { visible, format?, settings := settings.tokens } (inputs w files)).map .done
  | .check files noRecover maxErrors? jobs? noRoundtrip =>
    (runCheck (override settings.check noRecover maxErrors? jobs? noRoundtrip)
      (inputs w files)).map .done
  | .config none => .ok (.done { out := settings.toToml })
  | .config (some path) => .ok (.save path settings.toToml.toList)

/-- What a run with some arguments comes to. -/
def plan (w : World) (args : List Text) : Checked Plan :=
  match CommandLine.read w.env args with
  | .error stop => .ok (.done (stopped stop))
  | .ok invocation =>
    match load w invocation.settings? with
    | .error f => .ok (.done (.failed f))
    | .ok settings => perform w settings invocation.action

/-- The outcome after settings have been written to a path, or could not be. -/
def saved (path : Text) : Except IoError Unit → Outcome
  | .ok () => { err := "Wrote configuration to " ++ String.ofList path ++ "\n" }
  | .error e => .failed (.settingsAccess e)

/-- The files that a run with some arguments may read. -/
def paths (env : CommandLine.Environment) (args : List Text) : List Text :=
  match CommandLine.read env args with
  | .error _ => []
  | .ok invocation =>
    let files := match invocation.action with
      | .tokens files .. | .check files .. => files
      | .config _ => []
    invocation.settings?.toList ++ settingsPaths env ++ files

/-! ## Runs on a disk -/

/-- The world with a given disk. -/
def onDisk (d : Disk) (env : CommandLine.Environment) (cores : Nat) : World :=
  ⟨d.read, d.isPresent, env, cores⟩

/-- A whole run on a disk: its outcome and the disk afterwards. -/
def runOn (d : Disk) (env : CommandLine.Environment) (cores : Nat) (args : List Text) :
    Checked (Outcome × Disk) :=
  (plan (onDisk d env cores) args).map fun
    | .done outcome => (outcome, d)
    | .save path content =>
      let (result, d) := d.write path content
      (saved path result, d)

end Program

end Lexis
