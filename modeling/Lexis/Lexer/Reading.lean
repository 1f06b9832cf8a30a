import Lexis.Lexer.CharClass
import Lexis.Lexer.Error
import Lexis.Token.Kind

/-!
# Readings

A *reading* splits a text into what a lexical rule has taken and what it has left. A rule takes
more by `Reading.skip` and `Reading.takeWhile` and gives nothing back, so at each moment the two
parts make up the text.

* `Reading.whole_skip`, `Reading.whole_takeWhile`: nothing is lost.
* `Reading.length_left_skip_le`, `Reading.length_left_takeWhile_le`: what is left only shrinks.
* `Scan`: the outcome of a rule, a lexeme or the cause of a failure, with the reading behind it.
-/

namespace Lexis

/-- A text split into what is taken and what is left. -/
structure Reading where
  /-- The characters taken so far. -/
  taken : Text
  /-- The characters that follow. -/
  left : Text
  deriving DecidableEq, Repr

namespace Reading

/-- Nothing taken yet. -/
def start (t : Text) : Reading := ⟨[], t⟩

/-- The text that is read. -/
def whole (r : Reading) : Text := r.taken ++ r.left

/-- Takes `n` characters, or all that are left. -/
def skip (r : Reading) (n : Nat) : Reading := ⟨r.taken ++ r.left.take n, r.left.drop n⟩

/-- Takes characters as long as they are in a class. -/
def takeWhile (r : Reading) (p : Char → Bool) : Reading :=
  ⟨r.taken ++ r.left.takeWhile p, r.left.dropWhile p⟩

/-- Whether the next character exists and is in a class. -/
def sees (r : Reading) (p : Char → Bool) : Bool := r.left.head?.any p

/-- Takes one character if it is in a class. -/
def takeIf (r : Reading) (p : Char → Bool) : Reading := if r.sees p then r.skip 1 else r

@[simp] theorem whole_start (t : Text) : (start t).whole = t := rfl

@[simp] theorem whole_skip (r : Reading) (n : Nat) : (r.skip n).whole = r.whole := by
  simp [whole, skip, List.append_assoc, List.take_append_drop]

@[simp] theorem whole_takeWhile (r : Reading) (p : Char → Bool) :
    (r.takeWhile p).whole = r.whole := by
  simp [whole, takeWhile, List.append_assoc, List.takeWhile_append_dropWhile]

@[simp] theorem whole_takeIf (r : Reading) (p : Char → Bool) : (r.takeIf p).whole = r.whole := by
  unfold takeIf
  split <;> simp

theorem length_left_skip_le (r : Reading) (n : Nat) :
    (r.skip n).left.length ≤ r.left.length := by
  simp only [skip, List.length_drop]
  omega

theorem length_left_takeWhile_le (r : Reading) (p : Char → Bool) :
    (r.takeWhile p).left.length ≤ r.left.length :=
  (List.dropWhile_suffix p).length_le

theorem length_left_takeIf_le (r : Reading) (p : Char → Bool) :
    (r.takeIf p).left.length ≤ r.left.length := by
  unfold takeIf
  split
  · exact length_left_skip_le r 1
  · exact Nat.le_refl _

end Reading

/-- What a rule makes of the text it has taken. -/
structure Lexeme where
  /-- The kind. -/
  kind : Kind
  /-- Whether a parser sees it. -/
  visible : Bool
  /-- The text of the token. -/
  text : Text
  deriving DecidableEq, Repr

/-- The outcome of a lexical rule. -/
structure Scan where
  /-- What the rule has read. -/
  reading : Reading
  /-- A lexeme, or why there is none. -/
  result : Except Cause Lexeme
  /-- The width measured of the indentation in front, zero where none is measured. -/
  indent : Nat := 0

namespace Scan

/-- A lexeme whose text is what was read. -/
def accept (kind : Kind) (visible : Bool) (r : Reading) : Scan :=
  ⟨r, .ok ⟨kind, visible, r.taken⟩, 0⟩

/-- A failure after what was read. -/
def reject (cause : Cause) (r : Reading) : Scan := ⟨r, .error cause, 0⟩

@[simp] theorem reading_accept (kind : Kind) (visible : Bool) (r : Reading) :
    (accept kind visible r).reading = r := rfl

@[simp] theorem reading_reject (cause : Cause) (r : Reading) : (reject cause r).reading = r := rfl

end Scan

end Lexis
