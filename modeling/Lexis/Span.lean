import Lexis.Fault
import Lexis.Text.Basic

/-!
# Marks and spans

A *mark* is a place in a source: the byte offset, the line from one and the column from zero,
counted in characters. A *span* is a range of bytes with the line and column of its start and the
file it belongs to.

* `Mark.step`, `Mark.advance`: the mark after one character and after a text; a line or column
  that outgrows its word is a fault.
* `Span.width`: the number of bytes of a span, a fault if the span is reversed.
-/

namespace Lexis

/-- The number of a file in a source map. -/
structure FileId where
  /-- The place of the file in the order of addition. -/
  index : Nat
  deriving DecidableEq, Repr, Inhabited

/-- The file of texts that belong to no file: the first. -/
def FileId.unknown : FileId := ⟨0⟩

/-- The name of a file number in messages. -/
def FileId.display (f : FileId) : String := "FileId(" ++ toString f.index ++ ")"

/-- A place in a source. -/
structure Mark where
  /-- Bytes before the place. -/
  offset : Nat
  /-- The line, counted from one. -/
  line : Nat
  /-- Characters since the start of the line. -/
  column : Nat
  deriving DecidableEq, Repr

namespace Mark

/-- The start of a source. -/
def origin : Mark := ⟨0, 1, 0⟩

/-- The mark after the character `c`: a line feed starts a line. -/
def step (m : Mark) (c : Char) : Checked Mark :=
  if c = '\n' then
    (Checked.word (m.line + 1)).map fun line => ⟨m.offset + c.utf8Size, line, 0⟩
  else
    (Checked.word (m.column + 1)).map fun column => ⟨m.offset + c.utf8Size, m.line, column⟩

/-- The mark after a text that follows the given offset, line and column. -/
def advanceFrom (offset line column : Nat) : Text → Checked Mark
  | [] => .ok ⟨offset, line, column⟩
  | c :: t =>
    if c = '\n' then
      if line + 1 < Checked.wordSize then advanceFrom (offset + c.utf8Size) (line + 1) 0 t
      else .error .overflow
    else if column + 1 < Checked.wordSize then
      advanceFrom (offset + c.utf8Size) line (column + 1) t
    else .error .overflow

/-- The mark after a text. -/
def advance (m : Mark) (t : Text) : Checked Mark := advanceFrom m.offset m.line m.column t

@[simp] theorem advance_nil (m : Mark) : m.advance [] = .ok m := rfl

/-- A text is passed character by character. -/
theorem advance_cons (m : Mark) (c : Char) (t : Text) :
    m.advance (c :: t) = (m.step c).bind (·.advance t) := by
  rw [advance, advanceFrom, step]
  unfold Checked.word
  split <;> split <;> rfl

theorem advance_append (m : Mark) (s t : Text) :
    m.advance (s ++ t) = (m.advance s).bind (·.advance t) := by
  induction s generalizing m with
  | nil => rfl
  | cons c s ih =>
    rw [List.cons_append, advance_cons, advance_cons]
    cases m.step c with
    | error f => rfl
    | ok m => exact ih m

end Mark

/-- A range of bytes in a file, with the line and column of its start. -/
structure Span where
  /-- The offset of the first byte. -/
  start : Nat
  /-- The offset after the last byte. -/
  stop : Nat
  /-- The line of the start, counted from one. -/
  line : Nat
  /-- The column of the start, counted from zero. -/
  column : Nat
  /-- The file. -/
  file : FileId := FileId.unknown
  deriving DecidableEq, Repr

namespace Span

/-- The span of something that is nowhere in a source. -/
def nowhere : Span := ⟨0, 0, 0, 0, FileId.unknown⟩

/-- The span from `m` up to the offset `stop`. -/
def ofMark (m : Mark) (stop : Nat) (file : FileId) : Span :=
  ⟨m.offset, stop, m.line, m.column, file⟩

/-- Whether the span holds no byte. -/
def isEmpty (s : Span) : Bool := s.start == s.stop

/-- The number of bytes. -/
def width (s : Span) : Checked Nat :=
  if s.start ≤ s.stop then .ok (s.stop - s.start) else .error .overflow

/-- The line and column of the start. -/
def display (s : Span) : String := s!"{s.line}:{s.column}"

/-- All fields, as they stand in the report of a failure. -/
def describe (s : Span) : String :=
  s!"Span \x7b start: {s.start}, end: {s.stop}, line: {s.line}, column: {s.column}, file_id: " ++
    s.file.display ++ " \x7d"

end Span

end Lexis
