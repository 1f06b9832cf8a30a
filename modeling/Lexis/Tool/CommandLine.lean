import Lexis.Tool.Settings

/-!
# The command line

A command line names a command, options in front of it and behind it, and the files that the
command works on. It is read from left to right: the first argument that is out of place ends the
reading, and so do the requests for help and for the version. A value that is an argument of its own
is checked only when the next option on the same side of the command comes, or at the end: a
request behind the command is met before such a value in front of it is looked at.

* `CommandLine.Given`: the options on one side of the command.
* `CommandLine.State.step`: the effect of one argument.
* `CommandLine.read`: what a whole command line asks for. Options that belong to every command may
  also be set by variables of the environment, which the command line overrides.
-/

namespace Lexis.CommandLine

/-- The commands. -/
inductive Command where
  /-- Lists tokens. -/
  | tokens
  /-- Checks files. -/
  | check
  /-- Shows or writes the settings. -/
  | config
  deriving DecidableEq, Repr

namespace Command

/-- The name of a command. -/
def name : Command → String
  | .tokens => "tokens"
  | .check => "check"
  | .config => "config"

/-- The command with a name. -/
def ofName? (name : Text) : Option Command :=
  [tokens, check, config].find? fun c => c.name.toList == name

/-- Whether the command works on files. -/
def takesFiles : Command → Bool
  | .tokens | .check => true
  | .config => false

end Command

/-- The options. -/
inductive Switch where
  | verbose | settings | noColor | help | version
  | visible | format
  | noRecover | maxErrors | jobs | noRoundtrip
  | write
  deriving DecidableEq, Repr

namespace Switch

/-- The name behind two hyphens. -/
def long : Switch → String
  | .verbose => "verbose"
  | .settings => "config"
  | .noColor => "no-color"
  | .help => "help"
  | .version => "version"
  | .visible => "visible"
  | .format => "format"
  | .noRecover => "no-recover"
  | .maxErrors => "max-errors"
  | .jobs => "jobs"
  | .noRoundtrip => "no-roundtrip"
  | .write => "write"

/-- The letter behind one hyphen. -/
def short? : Switch → Option Char
  | .verbose => some 'v'
  | .settings => some 'c'
  | .help => some 'h'
  | .version => some 'V'
  | .format => some 'F'
  | .jobs => some 'j'
  | .write => some 'w'
  | _ => none

/-- The variable of the environment that sets an option. -/
def environment? : Switch → Option String
  | .verbose => some "SERPT_VERBOSE"
  | .settings => some "SERPT_CONFIG"
  | .noColor => some "SERPT_NO_COLOR"
  | _ => none

/-- Whether a value has to follow the option. -/
def takesValue : Switch → Bool
  | .settings | .format | .maxErrors | .jobs | .write => true
  | _ => false

/-- The options that stand at any place. -/
def common : List Switch := [.verbose, .settings, .noColor, .help, .version]

/-- The options of a command. -/
def ofCommand : Command → List Switch
  | .tokens => [.visible, .format]
  | .check => [.noRecover, .maxErrors, .jobs, .noRoundtrip]
  | .config => [.write]

/-! ### Values -/

/-- The value of an option without a value. -/
def on : Text := ['t', 'r', 'u', 'e']

/-- A number without its sign. -/
def digits? (t : Text) : Option Nat :=
  if !t.isEmpty && t.all Char.isDigit then some (Toml.Read.ofDigits 10 t) else none

/-- A number with an optional sign that fits a 32-bit word. -/
def word? (t : Text) : Option Nat :=
  let n? := match t with
    | '+' :: t => digits? t
    | '-' :: t => (digits? t).filter (· = 0)
    | t => digits? t
  n?.filter (· < Checked.wordSize)

/-- Whether a value is one for the option. -/
def accepts (s : Switch) (value : Text) : Bool :=
  match s with
  | .settings | .write => !value.isEmpty
  | .format => (Format.ofName? value).isSome
  | .maxErrors => (word? value).isSome
  | .jobs => (word? value).any (0 < ·)
  | _ => value == on || value == ['f', 'a', 'l', 's', 'e']

end Switch

/-- The values of the variables of the environment. -/
abbrev Environment : Type := String → Option Text

/-! ## Reading arguments -/

/-- Why the reading of a command line ends early. -/
inductive Stop where
  /-- The command line is wrong. -/
  | misuse
  /-- Help is asked for. -/
  | help
  /-- The version is asked for, perhaps behind a command. -/
  | version (command? : Option Command)
  deriving DecidableEq, Repr

/-- The options on one side of the command, with their values. -/
structure Given where
  /-- The options whose values have been checked. -/
  checked : List (Switch × Text) := []
  /-- The last option, while its value is still to be checked. -/
  unchecked? : Option (Switch × Text) := none
  deriving DecidableEq, Repr

namespace Given

/-- The value of an option. -/
def lookup (g : Given) (switch : Switch) : Option Text := g.checked.lookup switch

/-- The options with one more, whose value is checked. No option is given twice. -/
def check (g : Given) (switch : Switch) (value : Text) : Except Stop Given :=
  if (g.lookup switch).isSome || !switch.accepts value then .error .misuse
  else .ok { g with checked := g.checked ++ [(switch, value)] }

/-- The options with the last one checked. -/
def settle (g : Given) : Except Stop Given :=
  match g.unchecked? with
  | none => .ok g
  | some (switch, value) => { g with unchecked? := none : Given }.check switch value

end Given

/-- Where the reading of a command line is. -/
inductive Stage where
  /-- In front of the command. -/
  | start
  /-- Behind a command. -/
  | behind (command : Command)
  /-- Behind the word `help`, where a command may be named. -/
  | help
  deriving DecidableEq, Repr

namespace Stage

/-- The command that has been named. -/
def command? : Stage → Option Command
  | .behind command => some command
  | _ => none

/-- The options that are known. -/
def switches (stage : Stage) : List Switch :=
  Switch.common ++ (stage.command?.map Switch.ofCommand).getD []

end Stage

/-- What has been read so far. -/
structure State where
  /-- Where the reading is. -/
  stage : Stage := .start
  /-- The options in front of the command. -/
  inFront : Given := {}
  /-- The options of the present stage. -/
  given : Given := {}
  /-- The arguments that are no options. -/
  operands : List Text := []
  /-- The option whose value comes next. -/
  waiting? : Option Switch := none
  /-- Whether no further argument is an option. -/
  literal : Bool := false
  deriving DecidableEq, Repr

namespace State

/-- The state with one more option. -/
def give (s : State) (switch : Switch) (value : Text) : Except Stop State := do
  let given ← (← s.given.settle).check switch value
  match switch with
  | .help => .error .help
  | .version => .error (.version s.stage.command?)
  | _ => .ok { s with given }

/-- The state in front of the value of an option. -/
def await (s : State) (switch : Switch) : Except Stop State := do
  return { s with given := ← s.given.settle, waiting? := some switch }

/-- The state behind the value of an option, which is checked later. -/
def receive (s : State) (switch : Switch) (value : Text) : State :=
  { s with given := { s.given with unchecked? := some (switch, value) }, waiting? := none }

/-- An argument behind two hyphens: a name, and perhaps a value behind a sign of equality. -/
def long (s : State) (t : Text) : Except Stop State :=
  let name := t.takeWhile (· ≠ '=')
  match s.stage.switches.find? (·.long.toList == name), t.dropWhile (· ≠ '=') with
  | none, _ => .error .misuse
  | some switch, [] =>
    if switch.takesValue then s.await switch else s.give switch Switch.on
  | some switch, _ :: value => if switch.takesValue then s.give switch value else .error .misuse

/-- An argument behind one hyphen: letters, the last perhaps with a value. -/
def letters (s : State) : Text → Except Stop State
  | [] => .ok s
  | c :: t =>
    match s.stage.switches.find? (·.short? == some c) with
    | none => .error .misuse
    | some switch =>
      if switch.takesValue then
        match t with
        | [] => s.await switch
        | '=' :: value => s.give switch value
        | value => s.give switch value
      else (s.give switch Switch.on).bind (·.letters t)

/-- An argument that is no option: the name of a command, or of a file behind one. -/
def operand (s : State) (arg : Text) : Except Stop State :=
  match s.stage with
  | .start =>
    if s.literal then .error .misuse
    else match Command.ofName? arg with
      | some command => .ok { stage := .behind command, inFront := s.given }
      | none => if arg == "help".toList then .ok { stage := .help } else .error .misuse
  | .behind command =>
    if command.takesFiles && !arg.isEmpty then .ok { s with operands := s.operands ++ [arg] }
    else .error .misuse
  | .help =>
    if s.operands.isEmpty && ((Command.ofName? arg).isSome || arg == "help".toList) then
      .ok { s with operands := [arg] }
    else .error .misuse

/-- Whether an argument starts like an option. A single hyphen does not. -/
def isOption : Text → Bool
  | '-' :: _ :: _ => true
  | _ => false

/-- The state after one more argument. -/
def step (s : State) (arg : Text) : Except Stop State :=
  match s.waiting? with
  | some switch => if isOption arg then .error .misuse else .ok (s.receive switch arg)
  | none =>
    if s.literal || s.stage = .help || !isOption arg then s.operand arg
    else match arg with
      | ['-', '-'] => .ok { s with literal := true }
      | '-' :: '-' :: t => s.long t
      | _ => s.letters arg.tail

end State

/-! ## Command lines -/

/-- What a command is asked to do. -/
inductive Action where
  | tokens (files : List Text) (visible : Bool) (format? : Option Format)
  | check (files : List Text) (noRecover : Bool) (maxErrors? jobs? : Option Nat)
    (noRoundtrip : Bool)
  | config (write? : Option Text)
  deriving DecidableEq, Repr

/-- What a command line asks for. -/
structure Invocation where
  /-- Whether progress is logged in detail. -/
  verbose : Bool
  /-- Whether the log is without colors. -/
  noColor : Bool
  /-- The file with the settings. -/
  settings? : Option Text
  /-- What is to be done. -/
  action : Action
  deriving DecidableEq, Repr

namespace State

/-- What the command is asked to do. -/
def action (s : State) : Command → Action
  | .tokens =>
    .tokens s.operands (s.given.lookup .visible).isSome
      ((s.given.lookup .format).bind Format.ofName?)
  | .check =>
    .check s.operands (s.given.lookup .noRecover).isSome
      ((s.given.lookup .maxErrors).bind Switch.word?) ((s.given.lookup .jobs).bind Switch.word?)
      (s.given.lookup .noRoundtrip).isSome
  | .config => .config (s.given.lookup .write)

/-- The value of a common option: behind the command, in front of it, or in the environment. -/
def value? (s : State) (env : Environment) (switch : Switch) : Option Text :=
  (s.given.lookup switch).or <| (s.inFront.lookup switch).or <| switch.environment?.bind env

/-- Whether the environment has a wrong value for an option. The values are looked at for each side
of the command on which the option is not given. -/
def misled (s : State) (env : Environment) (switch : Switch) : Bool :=
  let unset := (s.given.lookup switch).isNone || (s.inFront.lookup switch).isNone
  unset && (switch.environment?.bind env).any fun value => !switch.accepts value

/-- What the arguments ask for when all are read. -/
def finish (s : State) (env : Environment) : Except Stop Invocation :=
  match s.stage with
  | .start => .error .misuse
  | .help => .error .help
  | .behind command => do
    let s := { s with given := ← s.given.settle, inFront := ← s.inFront.settle }
    if s.waiting?.isSome || Switch.common.any (s.misled env) ||
        (command.takesFiles && s.operands.isEmpty) then .error .misuse
    else .ok {
      verbose := s.value? env .verbose == some Switch.on
      noColor := s.value? env .noColor == some Switch.on
      settings? := s.value? env .settings
      action := s.action command }

end State

/-- What a command line asks for in an environment. -/
def read (env : Environment) (args : List Text) : Except Stop Invocation := do
  (← args.foldlM State.step {}).finish env

end Lexis.CommandLine
