import Lexis.Diagnostic.Handler
import Lexis.Lexer.Tokenize

/-!
# Reading on after errors

A source with errors is read to its end by passing over one character after each error. Each error
becomes an error diagnostic, and each closing bracket without an open one a warning.

* `Recovery.Step`: a token, with a warning if there is cause for one, or an error with the
  character passed over.
* `Recovery.steps`: the steps of a lexer up to the end of the input.
* `recover`: the tokens of a source, with the diagnostics added to a handler.
-/

namespace Lexis

/-- The warning about a closing bracket without an open one. -/
def unmatchedCloserWarning (t : Token) : Diagnostic where
  level := .warning
  message := "unmatched closing bracket `" ++ String.ofList t.text ++ "`"
  span := t.span
  code := some .unbalancedCloser

namespace Recovery

/-- One step of reading on. -/
structure Step where
  /-- The token, unless the attempt at it failed. -/
  token? : Option Token
  /-- The diagnostic, if there is cause for one. -/
  diagnostic? : Option Diagnostic
  /-- What happened. -/
  events : List Event

/-- The step of a token: it is warned of if the number of unmatched closing brackets grew. -/
def Step.ofToken (l : Lexer) (u : Turn) (t : Token) : Step where
  token? := some t
  diagnostic? :=
    if l.context.unmatchedClosers < u.lexer.context.unmatchedClosers then
      some (unmatchedCloserWarning t)
    else none
  events := u.events

/-- The step of an error after which a character was passed over. -/
def Step.ofError (u : Turn) (e : LexError) (skipped : Option Char) : Step where
  token? := none
  diagnostic? := some e.toDiagnostic
  events := u.events ++ [.skipped e.span.line e.span.column skipped]

/-- The steps up to the end of the input. -/
def steps (l : Lexer) : Checked (List Step) :=
  match h : l.next with
  | .error f => .error f
  | .ok u =>
    match hr : u.reply with
    | .ok t =>
      if ht : t.isEof = true then .ok [Step.ofToken l u t]
      else
        have := Lexer.length_rest_next_lt h hr (by simpa using ht)
        (steps u.lexer).map (Step.ofToken l u t :: ·)
    | .error e =>
      match hk : u.lexer.skip with
      | .error f => .error f
      | .ok (skipped, lexer) =>
        have := Lexer.length_rest_skip_lt_of_error h hr hk
        (steps lexer).map (Step.ofError u e skipped :: ·)
termination_by l.rest.length

end Recovery

/-- The tokens of a source, read on after errors, and the handler with the new diagnostics. -/
def recover (source : Text) (handler : Handler) : Checked (List Token × Handler) :=
  (Recovery.steps (.ofSource source)).map fun steps =>
    (steps.filterMap (·.token?), handler.emitAll (steps.filterMap (·.diagnostic?)))

/-- What happens while a source is read on after errors. -/
def recoverEvents (source : Text) : Checked (List Event) :=
  let lexer := Lexer.ofSource source
  (Recovery.steps lexer).map fun steps => lexer.startEvent :: steps.flatMap (·.events)

end Lexis
