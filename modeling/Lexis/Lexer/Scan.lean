import Lexis.Lexer.Layout
import Lexis.Lexer.Number
import Lexis.Lexer.StringLiteral
import Lexis.Lexer.Word

/-!
# The choice of a rule

The rule for the next token is chosen by the first characters of the text and by its
surroundings: whether the text starts a line, whether brackets are open and whether the token
before was a continuation.

* `Surroundings`: what the choice depends on besides the text.
* `scan`: the outcome of the rule that is chosen.
* `whole_scan`: the characters taken and those left make up the text.
* `length_left_scan_le`: at least one character is taken.
-/

namespace Lexis

/-- What the choice of a rule depends on besides the text. -/
structure Surroundings where
  /-- Whether the text starts a line. -/
  lineStart : Bool
  /-- Whether a bracket is open. -/
  inBrackets : Bool
  /-- Whether the token before was a continuation. -/
  afterContinuation : Bool
  deriving DecidableEq, Repr

/-- Whether a newline ends a logical line: outside brackets and behind something on its line, and
always behind a continuation. -/
def Surroundings.endsLine (s : Surroundings) : Bool :=
  s.afterContinuation || (!s.lineStart && !s.inBrackets)

/-- Whether a text starts with a number that starts with a point. -/
def startsFraction : Text → Bool
  | '.' :: d :: _ => d.isDigit
  | _ => false

/-- The outcome of the rule for the text `c :: t`. -/
def scan (s : Surroundings) (c : Char) (t : Text) : Scan :=
  let text := c :: t
  if 0 < Rule.newlines text then Rule.newline s.endsLine text
  else if s.lineStart && isIndent c then Rule.lineSpace s.inBrackets text
  else if isBlank c then Rule.blank text
  else if c = '#' then Rule.comment s.lineStart text
  else if c = '\\' then Rule.continuation text
  else if isQuote c then Rule.stringLiteral 0 text
  else match Rule.literalPrefix? text with
    | some n => Rule.stringLiteral n text
    | none =>
      if isIdentStart c then Rule.word text
      else if c.isDigit || startsFraction text then Rule.number text
      else Rule.symbol c text

theorem whole_scan (s : Surroundings) (c : Char) (t : Text) :
    (scan s c t).reading.whole = c :: t := by
  unfold scan
  dsimp only
  split
  · exact Rule.whole_newline ..
  split
  · exact Rule.whole_lineSpace ..
  split
  · exact Rule.whole_blank ..
  split
  · exact Rule.whole_comment ..
  split
  · exact Rule.whole_continuation ..
  split
  · exact Rule.whole_stringLiteral ..
  split
  · exact Rule.whole_stringLiteral ..
  split
  · exact Rule.whole_word ..
  split
  · exact Rule.whole_number ..
  · exact Rule.whole_symbol ..

theorem eq_dot_of_startsFraction {c : Char} {t : Text} (h : startsFraction (c :: t) = true) :
    c = '.' := by
  unfold startsFraction at h
  split at h
  · rename_i heq
    exact (List.cons.inj heq).1
  · contradiction

theorem length_left_scan_le (s : Surroundings) (c : Char) (t : Text) :
    (scan s c t).reading.left.length ≤ t.length := by
  unfold scan
  dsimp only
  split
  · exact Rule.length_left_newline_le _ (by assumption)
  split
  · rename_i h
    exact Rule.length_left_lineSpace_le _ _ (by simp_all)
  split
  · exact Rule.length_left_blank_le _ (by assumption)
  split
  · exact Rule.length_left_comment_le ..
  split
  · exact Rule.length_left_continuation_le ..
  split
  · exact Rule.length_left_stringLiteral_le ..
  split
  · exact Rule.length_left_stringLiteral_le ..
  split
  · exact Rule.length_left_word_le _ (isIdentContinue_of_isIdentStart (by assumption))
  split
  · rename_i h
    refine Rule.length_left_number_le c t ?_
    rcases Bool.or_eq_true_iff.mp h with hd | hf
    · exact .inl hd
    · exact .inr (eq_dot_of_startsFraction hf)
  · exact Rule.length_left_symbol_le ..

/-- A rule takes something. -/
theorem taken_scan_ne_nil (s : Surroundings) (c : Char) (t : Text) :
    (scan s c t).reading.taken ≠ [] := by
  intro h
  have hwhole := congrArg List.length (whole_scan s c t)
  have hleft := length_left_scan_le s c t
  simp only [Reading.whole, h, List.nil_append, List.length_cons] at hwhole
  omega

end Lexis
