import Mathlib.Algebra.Group.Nat.Defs
import Lexis.Proofs.Answer
import Lexis.Proofs.Place

/-!
# Where a lexer stands

A lexer does not keep the text that it has read. `Lexer.Stands source before l` puts it back: `l`
has read `before` of `source`, its mark is the one behind `before`, and it has counted no more
brackets than there are characters in `before`. A token or a skipped character takes such a lexer to
another; an error and the end of the input leave it where it is.

* `Token.Spans`: a token stands for a part of the source.
* `Lexer.Stands.token`, `Lexer.Stands.error`, `Lexer.Stands.skip`: one step from where a lexer
  stands.
* `Lexer.Stands.exists_next`, `Lexer.Stands.exists_skip`: on a source of less than `2 ^ 29` bytes no
  count outgrows its word. The tightest is the width of indentation, eight columns for a tab.
-/

namespace Lexis

/-! ## Tokens and the text they stand for -/

/-- The token stands for the part `taken` of a source, behind `before`. -/
structure Token.Spans (before taken : Text) (t : Token) : Prop where
  start_eq : t.span.start = Text.byteSize before
  stop_eq : t.span.stop = Text.byteSize (before ++ taken)
  text_eq : t.kind ≠ .layout .indentation → t.text = taken

theorem Token.Spans.sourceText_eq {before taken : Text} {t : Token} (h : t.Spans before taken)
    (rest : Text) : t.sourceText (before ++ taken ++ rest) = taken := by
  rw [sourceText, h.start_eq, h.stop_eq, Text.byteSize_append, Text.slice?_append]
  rfl

namespace Lexer

/-! ## The text behind a lexer -/

/-- The lexer has read `before` of `source` and stands behind it. -/
structure Stands (source before : Text) (l : Lexer) : Prop where
  append_rest : before ++ l.rest = source
  advance_eq : Mark.origin.advance before = .ok l.mark
  brackets_le : l.context.depth + l.context.unmatchedClosers ≤ before.length

theorem stands_ofSource (source : Text) (file : FileId) :
    (ofSource source file).Stands source [] :=
  ⟨rfl, rfl, Nat.zero_le _⟩

namespace Stands

variable {source before : Text} {l m : Lexer} {u : Turn}

theorem offset_eq (h : l.Stands source before) : l.mark.offset = Text.byteSize before := by
  have := Mark.offset_of_advance h.advance_eq
  rwa [Mark.origin, Nat.zero_add] at this

/-- The offset of the lexer is that of the end exactly when nothing is left. -/
theorem offset_eq_byteSize_iff (h : l.Stands source before) :
    l.mark.offset = Text.byteSize source ↔ l.rest = [] := by
  rw [h.offset_eq, ← h.append_rest, Text.byteSize_append]
  constructor
  · intro heq
    refine Decidable.byContradiction fun hne => ?_
    have := Text.byteSize_pos hne
    omega
  · intro hnil
    rw [hnil]
    rfl

theorem line_add_column_le (h : l.Stands source before) :
    l.mark.line + l.mark.column ≤ before.length + 1 := by
  have := Mark.line_add_column_of_advance_le h.advance_eq
  simp only [Mark.origin] at this
  omega

/-- What is read and what is left are shorter than the source has bytes. -/
theorem length_add_length_le (h : l.Stands source before) :
    before.length + l.rest.length ≤ Text.byteSize source := by
  rw [← List.length_append, h.append_rest]
  exact Text.length_le_byteSize source

/-- A lexer that differs in its flags only stands at the same place. -/
theorem congr (h : l.Stands source before) (hrest : m.rest = l.rest) (hmark : m.mark = l.mark)
    (hcontext : m.context = l.context) : m.Stands source before :=
  ⟨hrest ▸ h.append_rest, hmark ▸ h.advance_eq, hcontext ▸ h.brackets_le⟩

/-! ## One step -/

/-- What a rule reads from where the lexer stands. -/
theorem scan_eq (h : l.Stands source before) {c : Char} {t : Text} (hrest : l.rest = c :: t) :
    before ++ (scan l.surroundings c t).reading.taken ++ (scan l.surroundings c t).reading.left =
      source := by
  rw [List.append_assoc, ← h.append_rest, hrest]
  exact congrArg (before ++ ·) (whole_scan l.surroundings c t)

theorem offset_stop (h : l.Stands source before) {taken : Text} {stop : Mark}
    (hstop : l.mark.advance taken = .ok stop) :
    stop.offset = Text.byteSize (before ++ taken) := by
  rw [Mark.offset_of_advance hstop, h.offset_eq, Text.byteSize_append]

/-- **A token takes the lexer behind the text that it stands for.** -/
theorem token (h : l.Stands source before) {t : Token} (hnext : l.next = .ok u)
    (ht : u.reply = .ok t) (heof : t.isEof = false) :
    ∃ taken, taken ≠ [] ∧ t.Spans before taken ∧ u.lexer.Stands source (before ++ taken) ∧
      l.context.after t.kind = .ok u.lexer.context := by
  cases answers_of_next hnext with
  | eof hrest =>
    obtain rfl := Except.ok.inj ht
    contradiction
  | error hrest hstop hcause => contradiction
  | @token c r lexeme stop context hrest hstop hlexeme hcontext =>
    obtain rfl := Except.ok.inj ht
    have hne := taken_scan_ne_nil l.surroundings c r
    have hbrackets := Context.depth_add_unmatchedClosers_of_after_le hcontext
    have hpos := List.length_pos_iff.mpr hne
    have hle := h.brackets_le
    refine ⟨_, hne, ⟨h.offset_eq, h.offset_stop hstop, ?_⟩, ⟨h.scan_eq hrest, ?_, ?_⟩, hcontext⟩
    · exact (faithful_scan l.surroundings c r).text_eq lexeme hlexeme
    · exact Mark.advance_append_of_ok h.advance_eq hstop
    · rw [List.length_append]
      dsimp only
      omega

/-- **An error spans some text ahead of the lexer**, which stays where it is. -/
theorem error (h : l.Stands source before) {e : LexError} (hnext : l.next = .ok u)
    (he : u.reply = .error e) :
    ∃ taken left, taken ≠ [] ∧ before ++ taken ++ left = source ∧
      e.span = l.spanTo (Text.byteSize (before ++ taken)) := by
  cases answers_of_next hnext with
  | eof hrest => contradiction
  | token hrest hstop hlexeme hcontext => contradiction
  | @error c r cause stop hrest hstop hcause =>
    obtain rfl := Except.error.inj he
    refine ⟨_, _, taken_scan_ne_nil l.surroundings c r, h.scan_eq hrest, ?_⟩
    rw [← h.offset_stop hstop]

theorem start_of_error (h : l.Stands source before) {e : LexError} (hnext : l.next = .ok u)
    (he : u.reply = .error e) : e.span.start = Text.byteSize before := by
  obtain ⟨taken, left, -, -, hspan⟩ := h.error hnext he
  rw [hspan]
  exact h.offset_eq

/-- **A skipped character takes the lexer behind it.** -/
theorem skip (h : l.Stands source before) {c : Char} (hskip : l.skip = .ok (some c, m)) :
    l.rest = c :: m.rest ∧ m.Stands source (before ++ [c]) ∧
      m.context = { l.context with atStart := false, afterContinuation := false } := by
  obtain ⟨-, hnone, -⟩ | ⟨d, mark, hrest, hstep, hsome, hm⟩ := skip_eq_ok hskip
  · contradiction
  obtain rfl := Option.some.inj hsome
  refine ⟨hrest, ⟨?_, ?_, ?_⟩, by rw [hm]⟩
  · rw [List.append_assoc, List.singleton_append, ← hrest, h.append_rest]
  · refine Mark.advance_append_of_ok h.advance_eq ?_
    rw [hm]
    exact Mark.advance_cons_eq_ok_iff.mpr ⟨mark, hstep, rfl⟩
  · rw [hm, List.length_append]
    exact Nat.le_trans h.brackets_le (Nat.le_add_right _ _)

/-! ## No fault -/

/-- **On a source of less than `2 ^ 29` bytes a lexer always answers.** -/
theorem exists_next (h : l.Stands source before) (hsize : Text.byteSize source < 2 ^ 29) :
    ∃ u, l.next = .ok u := by
  unfold next
  split
  · exact ⟨_, rfl⟩
  rename_i c t hrest
  have hroom := h.length_add_length_le
  have hplace := h.line_add_column_le
  have hbrackets := h.brackets_le
  have hfaithful := faithful_scan l.surroundings c t
  have htaken : (scan l.surroundings c t).reading.taken.length ≤ l.rest.length := by
    rw [hrest, ← whole_scan l.surroundings c t, Reading.whole, List.length_append]
    exact Nat.le_add_right _ _
  have hindent := hfaithful.indent_le
  -- three counts may fault: the place behind the text, the width of indentation, the brackets
  obtain ⟨stop, hstop⟩ := Mark.exists_advance (m := l.mark)
    (t := (scan l.surroundings c t).reading.taken) (by unfold Checked.wordSize; omega)
  have hword : Checked.word (scan l.surroundings c t).indent = .ok _ :=
    Checked.word_of_lt (by unfold tabWidth at hindent; unfold Checked.wordSize; omega)
  unfold turn
  simp only [hstop, hword, bind, Except.bind]
  cases hresult : (scan l.surroundings c t).result with
  | error cause => exact ⟨_, rfl⟩
  | ok lexeme =>
    have hlen : 0 < l.rest.length := by simp [hrest]
    obtain ⟨context, hcontext⟩ := Context.exists_after (x := l.context) lexeme.kind
      (by unfold Checked.wordSize; omega)
    exact ⟨_, by simp only [produce, hcontext, bind, Except.bind]; rfl⟩

/-- A character that is left can be skipped. -/
theorem exists_skip (h : l.Stands source before) (hsize : Text.byteSize source < 2 ^ 29)
    (hne : l.rest ≠ []) : ∃ c m, l.skip = .ok (some c, m) := by
  unfold Lexer.skip
  split
  · contradiction
  · rename_i c t hrest
    have hroom := h.length_add_length_le
    have hplace := h.line_add_column_le
    obtain ⟨mark, hmark⟩ := Mark.exists_step (m := l.mark) c
      (by unfold Checked.wordSize; omega)
    exact ⟨c, _, by rw [hmark]; rfl⟩

end Stands

end Lexer

end Lexis
