import Lexis.Lexer.Scan

/-!
# What a rule makes of what it reads

Whatever rule is chosen, its outcome is faithful to what it has read: the lexeme is not the end of
the input, its text is the text read unless it is indentation, and the width that is measured is at
most eight columns for each character read.

* `Scan.Faithful`: the three facts about an outcome.
* `indentWidth_le`: a character of indentation is at most a tab wide.
* `faithful_scan`: the outcome of the chosen rule is faithful. Each rule has its own lemma.
-/

namespace Lexis

/-! ## The width of indentation -/

theorem indentStep_le (column : Nat) (c : Char) : indentStep column c ≤ column + tabWidth := by
  unfold indentStep tabWidth
  split <;> omega

theorem foldl_indentStep_le (t : Text) (column : Nat) :
    t.foldl indentStep column ≤ column + tabWidth * t.length := by
  induction t generalizing column with
  | nil => exact Nat.le_refl _
  | cons c t ih =>
    have hstep := indentStep_le column c
    have hrest := ih (indentStep column c)
    rw [List.foldl_cons, List.length_cons, Nat.mul_succ]
    omega

theorem indentWidth_le (t : Text) : indentWidth t ≤ tabWidth * t.length := by
  simpa [indentWidth] using foldl_indentStep_le t 0

namespace Reading

/-! ## What is taken only grows -/

theorem length_taken_le_skip (r : Reading) (n : Nat) :
    r.taken.length ≤ (r.skip n).taken.length := by
  simp [skip]

theorem length_taken_le_lineComment (r : Reading) :
    r.taken.length ≤ (Rule.lineComment r).reading.taken.length := by
  simp only [Rule.lineComment, Rule.commentText, Scan.reading_accept]
  exact Nat.le_trans (length_taken_le_skip r 1)
    (Nat.le_trans (length_taken_le_skip _ _) (length_taken_le_skip _ _))

end Reading

namespace Scan

/-- An outcome that agrees with what was read. -/
structure Faithful (s : Scan) : Prop where
  /-- The end of the input is not read. -/
  kind_ne : ∀ lexeme, s.result = .ok lexeme → lexeme.kind ≠ .eof
  /-- The text is what was read, indentation apart. -/
  text_eq : ∀ lexeme, s.result = .ok lexeme → lexeme.kind ≠ .layout .indentation →
    lexeme.text = s.reading.taken
  /-- Each character read is at most a tab wide. -/
  indent_le : s.indent ≤ tabWidth * s.reading.taken.length

theorem faithful_accept {kind : Kind} (visible : Bool) (r : Reading) (h : kind ≠ .eof) :
    (accept kind visible r).Faithful where
  kind_ne := by
    rintro _ ⟨⟩
    exact h
  text_eq := by
    rintro _ ⟨⟩ -
    rfl
  indent_le := Nat.zero_le _

theorem faithful_reject (cause : Cause) (r : Reading) : (reject cause r).Faithful where
  kind_ne := by
    rintro _ ⟨⟩
  text_eq := by
    rintro _ ⟨⟩
  indent_le := Nat.zero_le _

/-- A width may be measured of a part of what was read. -/
theorem Faithful.with_indent {s : Scan} (h : s.Faithful) {width : Nat}
    (hwidth : width ≤ tabWidth * s.reading.taken.length) : { s with indent := width }.Faithful where
  kind_ne := h.kind_ne
  text_eq := h.text_eq
  indent_le := hwidth

end Scan

namespace Rule

open Scan

/-! ## The rules -/

theorem faithful_lineComment (r : Reading) : (lineComment r).Faithful :=
  faithful_accept _ _ (by decide)

theorem faithful_comment (lineStart : Bool) (t : Text) : (comment lineStart t).Faithful := by
  unfold comment
  split
  · exact faithful_lineComment _
  · exact faithful_accept _ _ (by decide)

theorem faithful_indentation {space : Reading} {width : Nat}
    (h : width ≤ tabWidth * space.taken.length) : (indentation space width).Faithful where
  kind_ne := by
    rintro _ ⟨⟩ ⟨⟩
  text_eq := by
    rintro _ ⟨⟩ hkind
    exact absurd rfl hkind
  indent_le := Nat.le_trans h (Nat.mul_le_mul_left _ (space.length_taken_le_skip _))

theorem faithful_lineSpace (inBrackets : Bool) (t : Text) :
    (lineSpace inBrackets t).Faithful := by
  have hwidth := indentWidth_le ((Reading.start t).takeWhile isIndent).taken
  unfold lineSpace
  dsimp only
  split
  · refine (faithful_lineComment _).with_indent (Nat.le_trans hwidth ?_)
    exact Nat.mul_le_mul_left _ (Reading.length_taken_le_lineComment _)
  · split
    · exact (faithful_accept false _ (by decide)).with_indent hwidth
    · exact faithful_indentation hwidth

theorem faithful_continuation (t : Text) : (continuation t).Faithful := by
  unfold continuation
  dsimp only
  split
  · exact faithful_reject _ _
  · exact faithful_reject _ _
  · exact faithful_accept _ _ (by decide)

theorem faithful_closeLiteral (form : QuoteForm) (r : Reading) (e : Ending) :
    (closeLiteral form r e).Faithful := by
  cases e with
  | closed => exact faithful_accept _ _ (by decide)
  | escape => exact faithful_reject _ _
  | unclosed => exact faithful_reject _ _

theorem faithful_stringLiteral (n : Nat) (t : Text) : (stringLiteral n t).Faithful := by
  unfold stringLiteral
  dsimp only
  split <;> exact faithful_closeLiteral _ _ _

theorem faithful_word (t : Text) : (word t).Faithful := by
  refine faithful_accept _ _ ?_
  unfold wordKind
  split <;> simp

theorem faithful_integer (r : Reading) : (integer r).Faithful := by
  unfold integer
  split
  · exact faithful_accept _ _ (by decide)
  · split <;> exact faithful_accept _ _ (by decide)

theorem faithful_float (r : Reading) : (float r).Faithful := by
  unfold float
  split
  · exact faithful_reject _ _
  · split <;> exact faithful_accept _ _ (by decide)

theorem faithful_number (t : Text) : (number t).Faithful := by
  unfold number hexInteger decimal
  dsimp only
  split
  · split
    · exact faithful_integer _
    · exact faithful_reject _ _
  · split
    · split
      · exact faithful_float _
      · exact faithful_reject _ _
    · split
      · exact faithful_float _
      · exact faithful_integer _

theorem faithful_symbol (c : Char) (t : Text) : (symbol c (c :: t)).Faithful := by
  rw [symbol_cons]
  split
  · exact faithful_accept _ _ (by simp)
  · exact faithful_reject _ _

end Rule

/-- **The outcome of the chosen rule is faithful.** -/
theorem faithful_scan (s : Surroundings) (c : Char) (t : Text) : (scan s c t).Faithful := by
  unfold scan
  dsimp only
  split
  · exact Scan.faithful_accept _ _ (by decide)
  split
  · exact Rule.faithful_lineSpace ..
  split
  · exact Scan.faithful_accept _ _ (by decide)
  split
  · exact Rule.faithful_comment ..
  split
  · exact Rule.faithful_continuation ..
  split
  · exact Rule.faithful_stringLiteral ..
  split
  · exact Rule.faithful_stringLiteral ..
  split
  · exact Rule.faithful_word ..
  split
  · exact Rule.faithful_number ..
  · exact Rule.faithful_symbol ..

end Lexis
