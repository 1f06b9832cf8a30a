import Lexis.Fault
import Lexis.Text.Basic

/-!
# Character classes and indentation

The classes of characters that the lexical rules distinguish. Identifiers are made of ASCII
letters, digits and underscores; no other letters take part.

* `indentStep`, `indentWidth`: the width of indentation, with tab stops at multiples of eight.
* `indentColumns`: the columns passed on the way, each checked to fit a word.
-/

namespace Lexis

/-- Starts an identifier: a letter or an underscore. -/
def isIdentStart (c : Char) : Bool := c.isAlpha || c = '_'

/-- Continues an identifier: a letter, a digit or an underscore. -/
def isIdentContinue (c : Char) : Bool := c.isAlphanum || c = '_'

theorem isIdentContinue_of_isIdentStart {c : Char} (h : isIdentStart c = true) :
    isIdentContinue c = true := by
  simp only [isIdentStart, isIdentContinue, Char.isAlphanum, Bool.or_eq_true] at *
  exact h.imp_left Or.inl

/-- Space inside a line: a space, a tab or a form feed. -/
def isBlank (c : Char) : Bool := c = ' ' || c = '\t' || c = '\x0c'

/-- Space that indents a line: a space or a tab. -/
def isIndent (c : Char) : Bool := c = ' ' || c = '\t'

/-- Opens a string literal. -/
def isQuote (c : Char) : Bool := c = '\'' || c = '"'

/-- A hexadecimal digit of either case. -/
def isHexDigit (c : Char) : Bool :=
  c.isDigit || ('a' ≤ c && c ≤ 'f') || ('A' ≤ c && c ≤ 'F')

/-! ## Indentation -/

/-- The distance between tab stops. -/
def tabWidth : Nat := 8

/-- The column after one more character of indentation: a tab goes to the next tab stop, all else
one column on. -/
def indentStep (column : Nat) (c : Char) : Nat :=
  if c = '\t' then (column / tabWidth + 1) * tabWidth else column + 1

theorem lt_indentStep (column : Nat) (c : Char) : column < indentStep column c := by
  unfold indentStep tabWidth
  split <;> omega

/-- The width of a run of indentation. -/
def indentWidth (t : Text) : Nat := t.foldl indentStep 0

/-- The column after each character of a text that starts at `column`. -/
def indentColumns (column : Nat) : Text → Checked (List Nat)
  | [] => .ok []
  | c :: t => do
    let next ← Checked.word (indentStep column c)
    let columns ← indentColumns next t
    return next :: columns

end Lexis
