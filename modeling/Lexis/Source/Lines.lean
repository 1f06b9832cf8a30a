import Lexis.Source.Snippet
import Lexis.Span

/-!
# Lines

The lines of a source start at offset zero and behind each line feed. A table holds each line with
the source from its start on, so what is asked about a place costs no more than the line it is on.

* `LineTable.ofText`: the lines of a text, at least one.
* `LineTable.index`: the number of the line of an offset, found by halving.
* `LineTable.startsBy_index`, `LineTable.startsBy_index_succ`: that line starts at or before the
  offset, and the line behind it does not.
* `LineTable.position`, `LineTable.snippet?`: the line and column of an offset, and the first line
  of a span with the part of the span on it underlined.
-/

namespace Lexis

/-- A line of a source. -/
structure Line where
  /-- The offset at which the line starts. -/
  start : Nat
  /-- The source from there on, over the end of the line. -/
  onward : Text
  /-- The line without its line feed and the carriage returns in front of it. -/
  text : Text
  /-- The number of characters of the line. -/
  width : Nat := text.length
  /-- The width is that of the text. -/
  width_eq : width = text.length := by rfl
  deriving DecidableEq, Repr

namespace Line

/-- The line at the start of a text, which has the given offset. -/
def ofText (start : Nat) (t : Text) : Line where
  start
  onward := t
  text := ((t.takeWhile (· ≠ '\n')).reverse.dropWhile (· = '\r')).reverse

/-- The lines behind the line feeds of a text that starts at offset `start`. -/
def behindBreaks (start : Nat) : Text → List Line
  | [] => []
  | c :: t =>
    let next := start + c.utf8Size
    if c = '\n' then ofText next t :: behindBreaks next t else behindBreaks next t

/-- The column of an offset that is not before the line, counted from zero, and the source from
there on. The column counts characters where the offset is the edge of one. Elsewhere it counts
bytes, and nothing of the source is given. -/
def locate (l : Line) (offset : Nat) : Nat × Option Text :=
  match Text.passBytes? 0 l.onward (offset - l.start) with
  | some (column, rest) => (column, some rest)
  | none => (offset - l.start, none)

/-- The column of an offset that is not before the line. -/
def column (l : Line) (offset : Nat) : Nat := (l.locate offset).1

/-- The number of characters in the first `n` bytes of a text, up to a line feed, or zero if the
bytes are no whole number of characters. -/
def frontWidth (t : Text) (n : Nat) : Nat :=
  match Text.passBytes? 0 t n with
  | some (count, _) => ((t.take count).takeWhile (· ≠ '\n')).length
  | none => 0

theorem frontWidth_eq (t : Text) (n : Nat) :
    frontWidth t n =
      ((Text.takeBytes? t n).map fun s => (s.takeWhile (· ≠ '\n')).length).getD 0 := by
  rw [frontWidth, Text.passBytes?_eq]
  cases h : Text.takeBytes? t n with
  | none => rfl
  | some s =>
    obtain ⟨rest, hrest, rfl⟩ := Text.eq_append_of_takeBytes? h
    simp [hrest]

/-- The column at which a span starts, and the column behind the part of the span that is on the
line. A span that is no range of the source has no such part. -/
def cover (l : Line) (span : Span) : Nat × Nat :=
  match l.locate span.start with
  | (column, some rest) =>
    if span.start ≤ span.stop then (column, column + frontWidth rest (span.stop - span.start))
    else (column, column)
  | (column, none) => (column, column)

theorem fst_cover (l : Line) (span : Span) : (l.cover span).1 = l.column span.start := by
  rw [cover, column]
  split
  · rename_i h
    rw [h]
    split <;> rfl
  · rename_i h
    rw [h]

end Line

/-- The lines of a source, in their order. -/
structure LineTable where
  /-- The lines. -/
  lines : Array Line
  deriving DecidableEq, Repr

namespace LineTable

/-- The lines of a text. -/
def ofText (t : Text) : LineTable := ⟨(Line.ofText 0 t :: Line.behindBreaks 0 t).toArray⟩

/-- The number of lines. -/
def size (t : LineTable) : Nat := t.lines.size

/-- The line with a number, counted from zero. -/
def line? (t : LineTable) (n : Nat) : Option Line := t.lines[n]?

/-- The offset at which a line starts, lines counted from zero. -/
def lineStart? (t : LineTable) (n : Nat) : Option Nat := (t.line? n).map (·.start)

/-- A line by its number, counted from one, without its line break. -/
def lineAt? (t : LineTable) : (number : Nat) → Option Text
  | 0 => none
  | n + 1 => (t.line? n).map (·.text)

/-! ## The line of an offset -/

/-- Whether the line with a number starts at or before an offset. -/
def startsBy (t : LineTable) (offset n : Nat) : Bool := (t.line? n).any (·.start ≤ offset)

/-- The number of a line that starts at or before an offset, such that the line behind it does not.
It is looked for from line `lo` up to line `hi`, for which the two are known. -/
def search (t : LineTable) (offset lo hi : Nat) : Nat :=
  if lo + 1 < hi then
    let middle := (lo + hi) / 2
    if t.startsBy offset middle then t.search offset middle hi else t.search offset lo middle
  else lo
termination_by hi - lo

/-- The number of the line of an offset, counted from zero. -/
def index (t : LineTable) (offset : Nat) : Nat := t.search offset 0 t.size

theorem startsBy_search (t : LineTable) (offset lo hi : Nat) (h : t.startsBy offset lo = true) :
    t.startsBy offset (t.search offset lo hi) = true := by
  fun_induction search t offset lo hi with
  | case1 lo hi _ middle hmiddle ih => exact ih hmiddle
  | case2 lo hi _ middle _ ih => exact ih h
  | case3 lo hi _ => exact h

theorem startsBy_search_succ (t : LineTable) (offset lo hi : Nat) (hlt : lo < hi)
    (h : t.startsBy offset hi = false) :
    t.startsBy offset (t.search offset lo hi + 1) = false := by
  fun_induction search t offset lo hi with
  | case1 lo hi hlo middle _ ih => exact ih (by omega) h
  | case2 lo hi hlo middle hmiddle ih => exact ih (by omega) (by simpa using hmiddle)
  | case3 lo hi hlo =>
    obtain rfl : hi = lo + 1 := by omega
    exact h

theorem line?_ofText_zero (t : Text) : (ofText t).line? 0 = some (Line.ofText 0 t) := by
  simp [ofText, line?]

theorem size_ofText_pos (t : Text) : 0 < (ofText t).size := by
  simp [ofText, size]

/-- The line of an offset starts at or before it. -/
theorem startsBy_index (t : Text) (offset : Nat) :
    (ofText t).startsBy offset ((ofText t).index offset) = true :=
  startsBy_search _ _ _ _ (by simp [startsBy, line?_ofText_zero, Line.ofText])

/-- The line behind the line of an offset does not. -/
theorem startsBy_index_succ (t : Text) (offset : Nat) :
    (ofText t).startsBy offset ((ofText t).index offset + 1) = false :=
  startsBy_search_succ _ _ _ _ (size_ofText_pos t) (by simp [startsBy, line?, size])

/-! ## Places -/

/-- The line of an offset, counted from one, and its column, counted from zero. -/
def position (t : LineTable) (offset : Nat) : Nat × Nat :=
  let n := t.index offset
  (n + 1, ((t.line? n).map (·.column offset)).getD offset)

/-- The line on which a span starts, underlined from there to the end of the span or of the
line. -/
def snippet? (t : LineTable) (span : Span) (label : Option String := none) : Option Snippet := do
  let n := t.index span.start
  let line ← t.line? n
  let (startColumn, endColumn) := line.cover span
  return {
    line := line.text
    lineNumber := n + 1
    startColumn
    endColumn := min endColumn (max line.width startColumn)
    label }

end LineTable

end Lexis
