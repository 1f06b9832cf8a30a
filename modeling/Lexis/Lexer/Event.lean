import Lexis.Span
import Lexis.Text.Quoted
import Lexis.Token.Kind

/-!
# Events

What a lexer tells a log about its run: the start, each token, each closing bracket without an
open one, each character skipped after an error, and the end.

* `Event.level`, `Event.message`, `Event.fields`: an event as a log entry.
-/

namespace Lexis

/-- How important a log entry is. -/
inductive LogLevel where
  | trace | debug | warn
  deriving DecidableEq, Repr

/-- The word for a level. -/
def LogLevel.display : LogLevel → String
  | .trace => "TRACE"
  | .debug => "DEBUG"
  | .warn => "WARN"

/-- A moment of a lexer's run. -/
inductive Event where
  /-- A lexer is set on a source. -/
  | started (bytes : Nat) (file : FileId)
  /-- A token is found. -/
  | token (kind : Kind) (start stop : Nat) (visible : Bool)
  /-- A closing bracket has no open one. -/
  | unmatchedCloser (line column : Nat) (bracket : Kind)
  /-- A character is skipped after an error. -/
  | skipped (line column : Nat) (char : Option Char)
  /-- The end of the input is reached. -/
  | ended (tokens lines unmatchedClosers : Nat)
  deriving DecidableEq, Repr

namespace Event

/-- How important the event is. -/
def level : Event → LogLevel
  | .started .. => .debug
  | .token .. => .trace
  | .unmatchedCloser .. => .warn
  | .skipped .. => .warn
  | .ended .. => .debug

/-- The event in words. -/
def message : Event → String
  | .started .. => "starting lexing session"
  | .token .. => "token"
  | .unmatchedCloser .. => "closing bracket with no open bracket"
  | .skipped .. => "skipping character after lexical error"
  | .ended .. => "reached end of input"

/-- The named values of the event. -/
def fields : Event → List (String × String)
  | .started bytes file => [("bytes", toString bytes), ("file", toString file.index)]
  | .token kind start stop visible =>
    [("kind", kind.display), ("start", toString start), ("end", toString stop),
      ("visible", toString visible)]
  | .unmatchedCloser line column bracket =>
    [("line", toString line), ("column", toString column), ("bracket", bracket.display)]
  | .skipped line column char =>
    [("line", toString line), ("column", toString column),
      ("skipped", Quoted.displayChar? char)]
  | .ended tokens lines unmatchedClosers =>
    [("tokens", toString tokens), ("lines", toString lines),
      ("unmatched_closers", toString unmatchedClosers)]

end Event

end Lexis
