import Lexis.Span

/-!
# Places in a source

A place is given twice: by the number of bytes in front of it and by its line and column. This
module says what the text in front of a place makes of the two.

* `Text.IsEdge`: the offsets between two characters, with `Text.isEdge_iff` to decide them.
* `Text.charAt?`: the character at an offset.
* `Mark.offset_of_advance`: a text moves the offset by its bytes.
* `Mark.line_add_column_of_advance_le`: a character adds at most one to line and column together,
  so a text that is short enough is passed without a fault (`Mark.exists_advance`).
-/

namespace Lexis

namespace Text

/-! ## Edges of characters -/

/-- The offset `n` lies between two characters of `t` or at one of its ends: some front part has
`n` bytes. -/
def IsEdge (t : Text) (n : Nat) : Prop := ∃ front rest, t = front ++ rest ∧ byteSize front = n

theorem isEdge_append (front rest : Text) : IsEdge (front ++ rest) (byteSize front) :=
  ⟨front, rest, rfl, rfl⟩

theorem isEdge_iff (t : Text) (n : Nat) : IsEdge t n ↔ (dropBytes? t n).isSome = true := by
  constructor
  · rintro ⟨front, rest, rfl, rfl⟩
    rw [dropBytes?_append]
    rfl
  · intro h
    -- a seek that ends at an edge has passed the characters in front of it
    induction t generalizing n with
    | nil =>
      cases n with
      | zero => exact ⟨[], [], rfl, rfl⟩
      | succ n => simp [dropBytes?] at h
    | cons c t ih =>
      cases n with
      | zero => exact ⟨[], c :: t, rfl, rfl⟩
      | succ n =>
        rw [dropBytes?] at h
        split at h
        · rename_i hc
          obtain ⟨front, rest, rfl, hsize⟩ := ih _ h
          refine ⟨c :: front, rest, rfl, ?_⟩
          rw [byteSize_cons, hsize]
          omega
        · contradiction

instance (t : Text) (n : Nat) : Decidable (IsEdge t n) := decidable_of_iff _ (isEdge_iff t n).symm

/-- The character that starts at the offset `n`. -/
def charAt? (t : Text) (n : Nat) : Option Char := (dropBytes? t n).bind List.head?

theorem charAt?_append (front : Text) (c : Char) (rest : Text) :
    charAt? (front ++ c :: rest) (byteSize front) = some c := by
  rw [charAt?, dropBytes?_append]
  rfl

/-! ## Bytes in front of a place -/

theorem byteSize_le_append (front rest : Text) : byteSize front ≤ byteSize (front ++ rest) := by
  rw [byteSize_append]
  exact Nat.le_add_right _ _

theorem byteSize_lt_append (front : Text) {rest : Text} (h : rest ≠ []) :
    byteSize front < byteSize (front ++ rest) := by
  have hpos := byteSize_pos h
  rw [byteSize_append]
  omega

end Text

namespace Mark

/-! ## The mark behind a text -/

/-- A line feed starts a line, any other character moves the column by one. -/
theorem step_eq_ok {m n : Mark} {c : Char} (h : m.step c = .ok n) :
    (c = '\n' ∧ n = ⟨m.offset + c.utf8Size, m.line + 1, 0⟩) ∨
      (c ≠ '\n' ∧ n = ⟨m.offset + c.utf8Size, m.line, m.column + 1⟩) := by
  unfold step at h
  split at h
  · rename_i hc
    obtain ⟨line, hline, rfl⟩ := Checked.map_eq_ok_iff.mp h
    rw [(Checked.word_eq_ok_iff.mp hline).2]
    exact .inl ⟨hc, rfl⟩
  · rename_i hc
    obtain ⟨column, hcolumn, rfl⟩ := Checked.map_eq_ok_iff.mp h
    rw [(Checked.word_eq_ok_iff.mp hcolumn).2]
    exact .inr ⟨hc, rfl⟩

theorem offset_of_step {m n : Mark} {c : Char} (h : m.step c = .ok n) :
    n.offset = m.offset + c.utf8Size := by
  obtain ⟨-, rfl⟩ | ⟨-, rfl⟩ := step_eq_ok h <;> rfl

theorem line_add_column_of_step_le {m n : Mark} {c : Char} (h : m.step c = .ok n) :
    n.line + n.column ≤ m.line + m.column + 1 := by
  obtain ⟨-, rfl⟩ | ⟨-, rfl⟩ := step_eq_ok h
  · dsimp only
    omega
  · dsimp only
    omega

theorem exists_step {m : Mark} (c : Char) (h : m.line + m.column + 1 < Checked.wordSize) :
    ∃ n, m.step c = .ok n := by
  unfold step
  split
  · exact ⟨_, by rw [Checked.word_of_lt (by omega)]; rfl⟩
  · exact ⟨_, by rw [Checked.word_of_lt (by omega)]; rfl⟩

/-- A text is passed by its first character and then the others. -/
theorem advance_cons_eq_ok_iff {m n : Mark} {c : Char} {t : Text} :
    m.advance (c :: t) = .ok n ↔ ∃ k, m.step c = .ok k ∧ k.advance t = .ok n := by
  rw [advance_cons]
  cases m.step c with
  | error f => simp [Except.bind]
  | ok k => simp [Except.bind]

theorem offset_of_advance {m n : Mark} {t : Text} (h : m.advance t = .ok n) :
    n.offset = m.offset + Text.byteSize t := by
  induction t generalizing m with
  | nil =>
    obtain rfl := Except.ok.inj h
    rfl
  | cons c t ih =>
    obtain ⟨k, hk, hn⟩ := advance_cons_eq_ok_iff.mp h
    rw [ih hn, offset_of_step hk, Text.byteSize_cons, Nat.add_assoc]

theorem line_add_column_of_advance_le {m n : Mark} {t : Text} (h : m.advance t = .ok n) :
    n.line + n.column ≤ m.line + m.column + t.length := by
  induction t generalizing m with
  | nil =>
    obtain rfl := Except.ok.inj h
    exact Nat.le_refl _
  | cons c t ih =>
    obtain ⟨k, hk, hn⟩ := advance_cons_eq_ok_iff.mp h
    have hrest := ih hn
    have hstep := line_add_column_of_step_le hk
    rw [List.length_cons]
    omega

/-- A text is passed without a fault if there is room for all its characters on one line. -/
theorem exists_advance {m : Mark} {t : Text}
    (h : m.line + m.column + t.length < Checked.wordSize) : ∃ n, m.advance t = .ok n := by
  induction t generalizing m with
  | nil => exact ⟨m, rfl⟩
  | cons c t ih =>
    rw [List.length_cons] at h
    obtain ⟨k, hk⟩ := exists_step (m := m) c (by omega)
    have hle := line_add_column_of_step_le hk
    obtain ⟨n, hn⟩ := ih (m := k) (by omega)
    exact ⟨n, advance_cons_eq_ok_iff.mpr ⟨k, hk, hn⟩⟩

theorem advance_append_of_ok {m k n : Mark} {s t : Text} (hs : m.advance s = .ok k)
    (ht : k.advance t = .ok n) : m.advance (s ++ t) = .ok n := by
  rw [advance_append, hs]
  exact ht

end Mark

end Lexis
