import Lexis.Fault
import Lexis.Toml.Document

/-!
# Settings

The settings of the tool have a section for each of its two commands on source files. They are
kept in a TOML document, in which each section and each key may be missing.

* `Settings.defaults`: the settings without a document.
* `Settings.ofToml?`: the settings of a document. A missing key has its default, an unknown key
  is passed over, and a section may also be given as an array, by the places of its keys.
* `Settings.toToml`: the document that holds all settings.
-/

namespace Lexis

/-- How tokens are listed. -/
inductive Format where
  /-- A line to read for each token. -/
  | text
  /-- A JSON object for each token. -/
  | json
  deriving DecidableEq, Repr

namespace Format

/-- The name on the command line and in settings. -/
def name : Format → String
  | .text => "text"
  | .json => "json"

/-- The format with a name. -/
def ofName? (name : Text) : Option Format := [text, json].find? fun f => f.name.toList == name

theorem ofName?_name (f : Format) : ofName? f.name.toList = some f := by cases f <;> decide

end Format

/-- The settings for listing tokens. -/
structure ListingSettings where
  /-- How tokens are listed. -/
  format : Format := .text
  /-- Whether hidden tokens are listed too. -/
  includeHidden : Bool := true
  deriving DecidableEq, Repr

/-- The settings for checking files. -/
structure CheckSettings where
  /-- Whether a file is read on after an error. -/
  recover : Bool := true
  /-- How many diagnostics are shown for a file; zero stands for all. -/
  maxErrors : Nat := 20
  /-- Whether the tokens are compared with the source. -/
  verifyRoundtrip : Bool := true
  /-- How many files are checked at a time. -/
  jobs : Nat
  deriving DecidableEq, Repr

/-- All settings. -/
structure Settings where
  /-- For listing tokens. -/
  tokens : ListingSettings := {}
  /-- For checking files. -/
  check : CheckSettings
  deriving DecidableEq, Repr

namespace Settings

/-- The settings where nothing else is said: as many jobs as there are `cores`. -/
def defaults (cores : Nat) : Settings where
  check := { jobs := cores }

/-! ## Keys -/

/-- The keys of the settings. -/
inductive Key where
  | format | includeHidden
  | recover | maxErrors | verifyRoundtrip | jobs
  deriving DecidableEq, Repr

/-- The name of a key. -/
def Key.name : Key → String
  | .format => "format"
  | .includeHidden => "include_hidden"
  | .recover => "recover"
  | .maxErrors => "max_errors"
  | .verifyRoundtrip => "verify_roundtrip"
  | .jobs => "jobs"

/-- The keys of the section for listing tokens, in their order. -/
def listingKeys : List Key := [.format, .includeHidden]

/-- The keys of the section for checking files, in their order. -/
def checkKeys : List Key := [.recover, .maxErrors, .verifyRoundtrip, .jobs]

/-! ## Reading -/

/-- A truth value. -/
def boolean? : Toml.Value → Option Bool
  | .boolean b => some b
  | _ => none

/-- A number that fits a 32-bit word. -/
def word? : Toml.Value → Option Nat
  | .integer n => if 0 ≤ n && n.toNat < Checked.wordSize then some n.toNat else none
  | _ => none

/-- Whether a value is an array or a table without items. -/
def isEmpty : Toml.Value → Bool
  | .array items => items.isEmpty
  | .table _ entries => entries.isEmpty
  | _ => false

/-- A format: its name, or the name as the single key of a table, with an empty value. -/
def format? : Toml.Value → Option Format
  | .string name => Format.ofName? name
  | .table _ [(name, value)] => if isEmpty value then Format.ofName? name else none
  | _ => none

/-- What a section says about its keys: a table goes by their names, an array by their places. A
section that is missing or a date-time says nothing, and no other value is a section. -/
def fields? (keys : List Key) : Option Toml.Value → Option (Key → Option Toml.Value)
  | none | some .dateTime => some fun _ => none
  | some (.table _ entries) => some fun key => Toml.Entries.get? entries key.name.toList
  | some (.array items) => some fun key => items[keys.idxOf key]?
  | some (.tables last earlier) => some fun key =>
    (last :: earlier).reverse[keys.idxOf key]?.map (.table .header)
  | some _ => none

/-- The value of a key that may be missing. -/
def decode {α : Type} (decode? : Toml.Value → Option α) (default : α) :
    Option Toml.Value → Option α
  | none => some default
  | some value => decode? value

/-- The settings of a table. -/
def ofEntries? (cores : Nat) (entries : Toml.Entries) : Option Settings := do
  let standard := defaults cores
  let tokens ← fields? listingKeys (entries.get? "tokens".toList)
  let check ← fields? checkKeys (entries.get? "check".toList)
  return {
    tokens := {
      format := ← decode format? standard.tokens.format (tokens .format)
      includeHidden := ← decode boolean? standard.tokens.includeHidden (tokens .includeHidden) }
    check := {
      recover := ← decode boolean? standard.check.recover (check .recover)
      maxErrors := ← decode word? standard.check.maxErrors (check .maxErrors)
      verifyRoundtrip := ← decode boolean? standard.check.verifyRoundtrip (check .verifyRoundtrip)
      jobs := ← decode word? standard.check.jobs (check .jobs) } }

/-- The settings of a document, if it is one and each key has a value of its type. -/
def ofToml? (cores : Nat) (document : Text) : Option Settings :=
  (Toml.read? document).bind (ofEntries? cores)

/-! ## Writing -/

/-- A truth value in letters. -/
def truth (b : Bool) : String := if b then "true" else "false"

/-- The value of a key, as it stands in a document. -/
def value (s : Settings) : Key → String
  | .format => "\"" ++ s.tokens.format.name ++ "\""
  | .includeHidden => truth s.tokens.includeHidden
  | .recover => truth s.check.recover
  | .maxErrors => toString s.check.maxErrors
  | .verifyRoundtrip => truth s.check.verifyRoundtrip
  | .jobs => toString s.check.jobs

/-- The lines of some keys. -/
def lines (s : Settings) (keys : List Key) : String :=
  String.join (keys.map fun key => key.name ++ " = " ++ s.value key ++ "\n")

/-- The document that holds the settings of the keys to `keep`. -/
def document (s : Settings) (keep : Key → Bool) : String :=
  "[tokens]\n" ++ s.lines (listingKeys.filter keep) ++
    "\n[check]\n" ++ s.lines (checkKeys.filter keep)

/-- The document that holds all settings. -/
def toToml (s : Settings) : String := s.document fun _ => true

end Settings

end Lexis
