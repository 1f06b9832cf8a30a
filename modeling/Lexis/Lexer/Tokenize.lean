import Lexis.Lexer.Stream

/-!
# The tokens of a source

All tokens of a source at once. The list ends with the end of the input; if some token fails, its
error is the result.

* `tokenize`, `tokenizeVisible`: all tokens, and those that a parser sees.
* `tokenizeEvents`: what happens on the way.
-/

namespace Lexis

namespace Turn

/-- The tokens of some answers, or their first error. -/
def tokens : List Turn → Except LexError (List Token)
  | [] => .ok []
  | u :: us =>
    match u.reply with
    | .error e => .error e
    | .ok t => (tokens us).map (t :: ·)

/-- The tokens of some answers in front of their first error. -/
def tokensBeforeError : List Turn → List Token
  | [] => []
  | u :: us =>
    match u.reply with
    | .error _ => []
    | .ok t => t :: tokensBeforeError us

end Turn

/-- The tokens of a source that a mode shows. -/
def tokenizeIn (mode : StreamMode) (source : Text) : Checked (Except LexError (List Token)) :=
  ((Lexer.ofSource source).turns mode).map Turn.tokens

/-- All tokens of a source. -/
def tokenize (source : Text) : Checked (Except LexError (List Token)) := tokenizeIn .full source

/-- The tokens of a source that a parser sees. -/
def tokenizeVisible (source : Text) : Checked (Except LexError (List Token)) :=
  tokenizeIn .visible source

/-- What happens while a source is read in a mode. -/
def tokenizeEvents (mode : StreamMode) (source : Text) : Checked (List Event) :=
  let lexer := Lexer.ofSource source
  (lexer.turns mode).map fun turns => lexer.startEvent :: turns.flatMap (·.events)

end Lexis
