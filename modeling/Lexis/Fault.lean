/-!
# Faults

Positions are counted in machine words: lines, columns, bracket depths and indentation widths in
words of 32 bits. A count that does not fit and a cut that is not at the edge of a character are
*faults*: the computation has no answer, which is different from an answer that reports a
lexical error. `Checked α` is the type of computations that may fault.

* `Checked.word`: a count as a 32-bit word, a fault if it does not fit.
* `Checked.map_eq_ok_iff`: where a computed value comes from.
* `Checked.maxSize`: the number of bytes beyond which a text is not built.
-/

namespace Lexis

/-- Why a computation has no answer. -/
inductive Fault where
  /-- A count does not fit its machine word. -/
  | overflow
  /-- A range reaches past the end of a text, is reversed, or cuts a character. -/
  | range
  deriving DecidableEq, Repr

/-- A computation that gives an `α` or faults. -/
abbrev Checked (α : Type) : Type := Except Fault α

namespace Checked

/-- The number of values of a 32-bit word. -/
def wordSize : Nat := 4294967296

/-- `n` as a 32-bit word. -/
def word (n : Nat) : Checked Nat :=
  if n < wordSize then .ok n else .error .overflow

theorem word_of_lt {n : Nat} (h : n < wordSize) : word n = .ok n := if_pos h

theorem word_eq_ok_iff {n m : Nat} : word n = .ok m ↔ n < wordSize ∧ m = n := by
  unfold word
  split
  · simp_all [eq_comm]
  · simp [*]

/-- A computed value comes from a value without a fault. -/
theorem map_eq_ok_iff {α β : Type} {f : α → β} {x : Checked α} {b : β} :
    x.map f = .ok b ↔ ∃ a, x = .ok a ∧ f a = b := by
  cases x with
  | error fault => simp [Except.map]
  | ok a => simp [Except.map]

/-- The greatest number of bytes of a text: half of the addresses of a 64-bit machine. -/
def maxSize : Nat := 9223372036854775807

/-- A value that must be there: its absence is a bad range. -/
def ofRange {α : Type} : Option α → Checked α
  | some a => .ok a
  | none => .error .range

end Checked

end Lexis
