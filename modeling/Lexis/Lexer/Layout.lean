import Lexis.Lexer.Reading

/-!
# Lines, space and comments

Line breaks are `\n` and `\r\n`; a run of line breaks, each with an optional form feed in front,
is a newline. Space at the start of a line is indentation, measured with tab stops, and takes the
blank lines behind it along; inside brackets it is plain space, and in front of a comment it is
part of the comment. A comment at the start of a line takes the line breaks behind it along, a
comment behind code leaves them. A backslash joins a line to the next.

* `Rule.newline`, `Rule.blank`, `Rule.lineSpace`, `Rule.comment`, `Rule.continuation`: the rules.
* `whole_` and `length_left_` lemmas: each loses nothing and takes at least one character.
-/

namespace Lexis.Rule

/-! ## Line breaks -/

/-- The length of the line break at the start of a text, zero if there is none. -/
def lineBreak : Text → Nat
  | '\n' :: _ => 1
  | '\r' :: '\n' :: _ => 2
  | _ => 0

/-- The length of the run of line breaks at the start of a text. -/
def lineBreaks : Text → Nat
  | '\n' :: t => lineBreaks t + 1
  | '\r' :: '\n' :: t => lineBreaks t + 2
  | _ => 0

/-- The length of the run of line breaks at the start of a text, each with an optional form feed
in front. -/
def newlines : Text → Nat
  | '\n' :: t => newlines t + 1
  | '\r' :: '\n' :: t => newlines t + 2
  | '\x0c' :: '\n' :: t => newlines t + 2
  | '\x0c' :: '\r' :: '\n' :: t => newlines t + 3
  | _ => 0

/-- A run of newlines. -/
def newline (visible : Bool) (t : Text) : Scan :=
  .accept (.layout .newline) visible ((Reading.start t).skip (newlines t))

theorem whole_newline (visible : Bool) (t : Text) : (newline visible t).reading.whole = t := by
  simp [newline]

theorem length_left_newline_le (visible : Bool) {c : Char} {t : Text}
    (h : 0 < newlines (c :: t)) : (newline visible (c :: t)).reading.left.length ≤ t.length := by
  simp only [newline, Scan.reading_accept, Reading.skip, Reading.start, List.length_drop,
    List.length_cons]
  omega

/-! ## Space -/

/-- Space inside a line. -/
def blank (t : Text) : Scan :=
  .accept (.layout .blank) false ((Reading.start t).takeWhile isBlank)

theorem whole_blank (t : Text) : (blank t).reading.whole = t := by
  simp [blank]

/-- A class that takes the first character takes at least that one. -/
theorem length_left_takeWhile_start_le {p : Char → Bool} {c : Char} (t : Text) (h : p c = true) :
    ((Reading.start (c :: t)).takeWhile p).left.length ≤ t.length := by
  simp only [Reading.start, Reading.takeWhile, List.dropWhile_cons, h, if_true]
  exact (List.dropWhile_suffix _).length_le

theorem length_left_blank_le {c : Char} (t : Text) (h : isBlank c = true) :
    (blank (c :: t)).reading.left.length ≤ t.length :=
  length_left_takeWhile_start_le t h

/-! ## Comments -/

/-- The number of characters in front of the first line break. -/
def lineLength : Text → Nat
  | [] => 0
  | '\n' :: _ => 0
  | '\r' :: '\n' :: _ => 0
  | _ :: t => lineLength t + 1

/-- A comment whose hash sign is next, up to the line break. -/
def commentText (r : Reading) : Reading :=
  let opened := r.skip 1
  opened.skip (lineLength opened.left)

/-- A comment whose hash sign is next, with the line breaks behind it. -/
def lineComment (r : Reading) : Scan :=
  let text := commentText r
  .accept (.layout .comment) false (text.skip (lineBreaks text.left))

/-- A comment: with the line breaks behind it if it starts a line. -/
def comment (lineStart : Bool) (t : Text) : Scan :=
  if lineStart then lineComment (.start t)
  else .accept (.layout .comment) false (commentText (.start t))

@[simp] theorem whole_commentText (r : Reading) : (commentText r).whole = r.whole := by
  simp [commentText]

@[simp] theorem whole_lineComment (r : Reading) : (lineComment r).reading.whole = r.whole := by
  simp [lineComment]

theorem whole_comment (lineStart : Bool) (t : Text) :
    (comment lineStart t).reading.whole = t := by
  unfold comment
  split <;> simp

theorem length_left_commentText_le (r : Reading) :
    (commentText r).left.length ≤ r.left.length - 1 := by
  simp only [commentText, Reading.skip, List.length_drop]
  omega

theorem length_left_lineComment_le (r : Reading) :
    (lineComment r).reading.left.length ≤ r.left.length - 1 :=
  Nat.le_trans (Reading.length_left_skip_le _ _) (length_left_commentText_le r)

theorem length_left_comment_le (lineStart : Bool) (c : Char) (t : Text) :
    (comment lineStart (c :: t)).reading.left.length ≤ t.length := by
  unfold comment
  split
  · exact length_left_lineComment_le _
  · exact length_left_commentText_le _

/-! ## Space at the start of a line -/

/-- Indentation that is read, with the line breaks behind it: its text is as many spaces as it is
wide. -/
def indentation (space : Reading) (width : Nat) : Scan :=
  ⟨space.skip (lineBreaks space.left),
    .ok ⟨.layout .indentation, false, List.replicate width ' '⟩, width⟩

/-- Space at the start of a line: the front of a comment, plain space inside brackets, and
indentation otherwise. -/
def lineSpace (inBrackets : Bool) (t : Text) : Scan :=
  let space := (Reading.start t).takeWhile isIndent
  let width := indentWidth space.taken
  if space.sees (· = '#') then { lineComment space with indent := width }
  else if inBrackets then { Scan.accept (.layout .blank) false space with indent := width }
  else indentation space width

theorem whole_lineSpace (inBrackets : Bool) (t : Text) :
    (lineSpace inBrackets t).reading.whole = t := by
  unfold lineSpace
  dsimp only
  split
  · simp
  · split <;> simp [indentation]

theorem length_left_lineSpace_le (inBrackets : Bool) {c : Char} (t : Text)
    (h : isIndent c = true) : (lineSpace inBrackets (c :: t)).reading.left.length ≤ t.length := by
  have hspace := length_left_takeWhile_start_le t h
  unfold lineSpace
  dsimp only
  split
  · exact Nat.le_trans (length_left_lineComment_le _) (by omega)
  · split
    · exact hspace
    · exact Nat.le_trans (Reading.length_left_skip_le _ _) hspace

/-! ## Continuation -/

/-- A backslash with a line break behind it, and the space that starts the next line. -/
def continuation (t : Text) : Scan :=
  let slash := (Reading.start t).skip 1
  match lineBreak slash.left, slash.left with
  | 0, [] => .reject .unterminatedEscape slash
  | 0, _ :: _ => .reject (.unrecognized '\\') slash
  | n + 1, _ => .accept (.layout .continuation) false ((slash.skip (n + 1)).takeWhile isIndent)

theorem whole_continuation (t : Text) : (continuation t).reading.whole = t := by
  unfold continuation
  dsimp only
  split <;> simp

theorem length_left_continuation_le (c : Char) (t : Text) :
    (continuation (c :: t)).reading.left.length ≤ t.length := by
  unfold continuation
  dsimp only
  split
  · simp [Reading.start, Reading.skip]
  · simp [Reading.start, Reading.skip]
  · refine Nat.le_trans (Reading.length_left_takeWhile_le _ _) ?_
    simp only [Reading.start, Reading.skip, List.length_drop, List.length_cons]
    omega

end Lexis.Rule
