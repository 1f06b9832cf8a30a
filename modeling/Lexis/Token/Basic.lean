import Lexis.Span
import Lexis.Text.Quoted
import Lexis.Token.Kind

/-!
# Tokens

A token has a kind, a text, a span and a visibility. Its text is the source text of its span,
except for indentation, whose text is as many spaces as the indentation is wide. A parser sees
the visible tokens only; all tokens together cover the source.

* `Token.sourceText`: the part of a source that a token spans.
* `Token.sourceTexts`: the parts for several tokens, found in one walk along the source;
  `Token.sourceTexts_eq` says that they are those of the single tokens.
* `reconstruct`: the source texts of tokens, one behind the other.
-/

namespace Lexis

/-- A piece of a source. -/
structure Token where
  /-- What it is. -/
  kind : Kind
  /-- Its text. -/
  text : Text
  /-- Where it stands. -/
  span : Span
  /-- Whether a parser sees it. -/
  visible : Bool
  deriving DecidableEq, Repr

namespace Token

/-- Whether the token is the end of the input. -/
def isEof (t : Token) : Bool := t.kind = .eof

/-- The part of `source` that the token spans, empty if the span is no range of `source`. -/
def sourceText (t : Token) (source : Text) : Text :=
  (Text.slice? source t.span.start t.span.stop).getD []

/-- The width of an indentation. -/
def indentWidth? (t : Token) : Option Nat :=
  if t.kind = .layout .indentation then some (Text.byteSize t.text) else none

/-- The kind and the text. -/
def display (t : Token) : String := t.kind.display ++ "(" ++ Quoted.display t.text ++ ")"

/-! ## Several tokens -/

/-- The text of a token, where `found` is the result of seeking its start in the source. -/
def textAt (t : Token) (found : Text × Nat) : Text :=
  if found.2 = 0 ∧ t.span.start ≤ t.span.stop then
    (Text.takeBytes? found.1 (t.span.stop - t.span.start)).getD []
  else []

theorem textAt_seek (t : Token) (source : Text) :
    t.textAt (Text.seek source t.span.start) = t.sourceText source := by
  unfold textAt sourceText Text.slice?
  rw [Text.dropBytes?_eq_seek]
  split <;> split <;> simp_all

/-- The source texts of tokens, where `rest` is what follows the first `offset` bytes of `source`.
Each token is sought from the place of the one in front of it, and from the start of the source only
if it lies before that place. -/
def sourceTextsFrom (source : Text) (offset : Nat) (rest : Text) : List Token → List Text
  | [] => []
  | t :: tokens =>
    let start := t.span.start
    let found :=
      if offset ≤ start then Text.seek rest (start - offset) else Text.seek source start
    t.textAt found :: sourceTextsFrom source (start - found.2) found.1 tokens

/-- The source texts of tokens. -/
def sourceTexts (source : Text) (tokens : List Token) : List Text :=
  sourceTextsFrom source 0 source tokens

theorem sourceTextsFrom_eq {source rest : Text} {offset : Nat}
    (h : Text.seek source offset = (rest, 0)) (tokens : List Token) :
    sourceTextsFrom source offset rest tokens = tokens.map (·.sourceText source) := by
  induction tokens generalizing offset rest with
  | nil => rfl
  | cons t tokens ih =>
    have found : (if offset ≤ t.span.start then Text.seek rest (t.span.start - offset)
        else Text.seek source t.span.start) = Text.seek source t.span.start := by
      split
      · rename_i hle
        have := Text.seek_add source offset (t.span.start - offset)
        rw [h, Nat.zero_add, Nat.add_sub_cancel' hle] at this
        exact this.symm
      · rfl
    rw [sourceTextsFrom, List.map_cons]
    simp only [found, textAt_seek, ih (Text.seek_sub_snd_seek source t.span.start)]

theorem sourceTexts_eq (source : Text) (tokens : List Token) :
    sourceTexts source tokens = tokens.map (·.sourceText source) :=
  sourceTextsFrom_eq (Text.seek_zero source) tokens

end Token

/-- The source texts of `tokens`, one behind the other. -/
def reconstruct (tokens : List Token) (source : Text) : Text :=
  (Token.sourceTexts source tokens).flatten

theorem reconstruct_eq (tokens : List Token) (source : Text) :
    reconstruct tokens source = tokens.flatMap (·.sourceText source) := by
  rw [reconstruct, Token.sourceTexts_eq, List.flatMap_def]

end Lexis
