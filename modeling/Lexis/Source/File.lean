import Lexis.Source.Lines
import Lexis.Text.Quoted

/-!
# Source files

A source file is a named text with a number. What is asked about its lines is answered by a table of
them.

* `SourceFile.lines`: the table.
* `SourceFile.position`: the line and column of an offset.
* `SourceFile.lineAt?`: a line by its number, without its line break.
* `SourceFile.snippet?`: the first line of a span, with the part of the span on it underlined.
-/

namespace Lexis

/-- A named source text. -/
structure SourceFile where
  /-- The number of the file. -/
  id : FileId
  /-- The name shown in messages. -/
  name : String
  /-- The text. -/
  content : Text
  deriving DecidableEq, Repr

namespace SourceFile

/-- The lines. -/
def lines (f : SourceFile) : LineTable := LineTable.ofText f.content

/-- The number of lines: one more than the number of line feeds. -/
def lineCount (f : SourceFile) : Nat := f.lines.size

/-- The offset at which a line starts, lines counted from zero. -/
def lineStart? (f : SourceFile) (line : Nat) : Option Nat := f.lines.lineStart? line

/-- The line of an offset, counted from one, and its column, counted from zero. -/
def position (f : SourceFile) (offset : Nat) : Nat × Nat := f.lines.position offset

/-- A line by its number, counted from one, without its line break. -/
def lineAt? (f : SourceFile) (line : Nat) : Option Text := f.lines.lineAt? line

/-- The line on which a span starts, underlined from there to the end of the span or of the
line. -/
def snippet? (f : SourceFile) (span : Span) (label : Option String := none) : Option Snippet :=
  f.lines.snippet? span label

/-- The number, name and line count, as they stand in the report of a failure. -/
def describe (f : SourceFile) : String :=
  "SourceFile \x7b id: " ++ f.id.display ++ ", name: " ++ Quoted.display f.name.toList ++
    ", line_count: " ++ toString f.lineCount ++ " \x7d"

end SourceFile

end Lexis
