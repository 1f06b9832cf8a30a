import Lexis.Fault
import Lexis.Text.Basic

/-!
# Snippets

A *snippet* shows one line of a source and underlines a range of its columns with carets. The
line stands behind a gutter with its number, the carets behind an empty gutter of the same width:

```text
  1 | x = $
    |     ^
```

* `Snippet.shownLine`, `Snippet.underline`: the two rows.
* `Snippet.format`: the two rows with a line break between them.
* `Snippet.fits`: whether the row with the carets can be built at all.
-/

namespace Lexis

/-- A line of a source with a range of columns to underline. -/
structure Snippet where
  /-- The line, without its line break. -/
  line : Text
  /-- Its number, counted from one. -/
  lineNumber : Nat
  /-- The first column to underline. -/
  startColumn : Nat
  /-- The column after the last one to underline. -/
  endColumn : Nat
  /-- What to write behind the carets. -/
  label : Option String := none
  deriving DecidableEq, Repr

namespace Snippet

/-- The width of the gutter: that of the line number, and at least three. -/
def gutterWidth (s : Snippet) : Nat := max 3 (Nat.toDigits 10 s.lineNumber).length

/-- What divides the gutter from the line. -/
def divider : Text := [' ', '|', ' ']

/-- The row with the line, its number at the right of the gutter. -/
def shownLine (s : Snippet) : Text :=
  let digits := Nat.toDigits 10 s.lineNumber
  List.replicate (s.gutterWidth - digits.length) ' ' ++ digits ++ divider ++ s.line

/-- The number of carets: one even for an empty or reversed range. -/
def caretCount (s : Snippet) : Nat := max 1 (s.endColumn - s.startColumn)

/-- The label behind a blank, or nothing. -/
def labelText (s : Snippet) : Text :=
  match s.label with
  | some label => ' ' :: label.toList
  | none => []

/-- The row with the carets. -/
def underline (s : Snippet) : Text :=
  List.replicate s.gutterWidth ' ' ++ divider ++ List.replicate s.startColumn ' ' ++
    List.replicate s.caretCount '^' ++ s.labelText

/-- The two rows. -/
def format (s : Snippet) : String := String.ofList (s.shownLine ++ '\n' :: s.underline)

/-- Whether the carets and the blanks in front of them are texts of a possible size. -/
def fits (s : Snippet) : Bool :=
  s.startColumn ≤ Checked.maxSize && s.caretCount ≤ Checked.maxSize

/-- The two rows, a fault if they cannot be built. -/
def formatChecked (s : Snippet) : Checked String :=
  if s.fits then .ok s.format else .error .overflow

end Snippet

end Lexis
