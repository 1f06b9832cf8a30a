import Lexis.Span
import Lexis.Source.Snippet

/-!
# Diagnostics

A *diagnostic* is an error or a warning about a place in a source, with an optional code, snippets
of the source, notes and helps.

* `DiagnosticCode.display`: the letter and the number, written with at least four digits.
* `Diagnostic.display`: the whole diagnostic as it is printed.
* `Diagnostic.displayChecked`: the same, a fault if a snippet cannot be built.
-/

namespace Lexis

/-- How serious a diagnostic is. -/
inductive Level where
  /-- The source is not accepted. -/
  | error
  /-- The source is accepted. -/
  | warning
  deriving DecidableEq, Repr

/-- The word for a level. -/
def Level.display : Level → String
  | .error => "error"
  | .warning => "warning"

/-- A stable name for a kind of diagnostic. -/
structure DiagnosticCode where
  /-- The letters, such as `E` for errors. -/
  letters : String
  /-- The number. -/
  number : Nat
  deriving DecidableEq, Repr

namespace DiagnosticCode

/-- No lexical rule takes the character. -/
def unexpectedCharacter : DiagnosticCode := ⟨"E", 1001⟩

/-- A string without its closing quote. -/
def unterminatedString : DiagnosticCode := ⟨"E", 1002⟩

/-- A number with a marker that nothing valid follows. -/
def invalidNumber : DiagnosticCode := ⟨"E", 1003⟩

/-- A backslash at the end of the input. -/
def unterminatedEscape : DiagnosticCode := ⟨"E", 1005⟩

/-- A closing bracket without an open one. -/
def unbalancedCloser : DiagnosticCode := ⟨"W", 1006⟩

/-- The letters and the number, with zeros in front of a number of less than four digits. -/
def display (c : DiagnosticCode) : String :=
  let digits := Nat.toDigits 10 c.number
  c.letters ++ String.ofList (List.replicate (4 - digits.length) '0' ++ digits)

/-- The code, as it stands in the report of a failure. -/
def describe (c : DiagnosticCode) : String := "DiagnosticCode(" ++ c.display ++ ")"

end DiagnosticCode

/-- An error or a warning. -/
structure Diagnostic where
  /-- How serious it is. -/
  level : Level
  /-- What is wrong, in one line. -/
  message : String
  /-- Where it is. -/
  span : Span := Span.nowhere
  /-- The code, if it has one. -/
  code : Option DiagnosticCode := none
  /-- Remarks. -/
  notes : List String := []
  /-- Advice. -/
  helps : List String := []
  /-- The lines of the source that it is about. -/
  snippets : List Snippet := []
  deriving DecidableEq, Repr

namespace Diagnostic

/-- Whether the diagnostic is an error. -/
def isError (d : Diagnostic) : Bool := d.level = .error

/-- Adds a snippet at the end, if there is one. -/
def addSnippet? (d : Diagnostic) : Option Snippet → Diagnostic
  | some snippet => { d with snippets := d.snippets ++ [snippet] }
  | none => d

/-- The first row: level, code and message. -/
def headline (d : Diagnostic) : String :=
  match d.code with
  | some code => d.level.display ++ "[" ++ code.display ++ "]: " ++ d.message
  | none => d.level.display ++ ": " ++ d.message

/-- The row with the place, if the diagnostic has one. -/
def placeRow (d : Diagnostic) : String :=
  if d.span = Span.nowhere then "" else "\n  at " ++ d.span.display

/-- The diagnostic as it is printed: headline, place, snippets, notes and helps. -/
def display (d : Diagnostic) : String :=
  d.headline ++ d.placeRow ++
    String.join (d.snippets.map fun snippet => "\n" ++ snippet.format) ++
    String.join (d.notes.map fun note => "\n  = note: " ++ note) ++
    String.join (d.helps.map fun help => "\n  = help: " ++ help)

/-- The diagnostic as it is printed, a fault if one of its snippets cannot be built. -/
def displayChecked (d : Diagnostic) : Checked String :=
  if d.snippets.all Snippet.fits then .ok d.display else .error .overflow

end Diagnostic

end Lexis
