import Mathlib.Data.List.DropRight
import Lexis.Proofs.Calls
import Lexis.Source.File

/-!
# Lines and columns

The line and column of a place are found in two ways. A lexer counts them along, character by
character; a source file looks for the line in its table by halving and counts the characters from
the start of that line. Both give what the text in front of the place says: the line is one more
than its line feeds, the column the number of characters behind the last of them.

* `Text.endMark`: the mark that the text in front of a place determines.
* `Mark.eq_endMark_of_advance`: the mark of a lexer is this one.
* `LineTable.index_ofText`, `LineTable.line?_count`: the line that a table finds for a place.
* `LineTable.position_ofText`: the position that a table finds is this one.
* `Lexer.Located`: what it means that a lexer knows its place. `Lexer.located_of_reachable` says
  that every lexer of a session does, and so do the spans that it gives.
-/

namespace Lexis

/-! ## The place behind a text -/

/-- The mark behind a text: the bytes of the text, one more than its line feeds, and the characters
behind the last line feed. -/
def Text.endMark (t : Text) : Mark where
  offset := byteSize t
  line := 1 + t.count '\n'
  column := (t.rtakeWhile (· ≠ '\n')).length

namespace Mark

/-- A character takes the mark behind a text to the mark behind the longer one. -/
theorem eq_endMark_of_step {t : Text} {c : Char} {n : Mark} (h : t.endMark.step c = .ok n) :
    n = Text.endMark (t ++ [c]) := by
  obtain ⟨rfl, rfl⟩ | ⟨hc, rfl⟩ := step_eq_ok h
  · simp [Text.endMark, Nat.add_assoc]
  · simp [Text.endMark, List.count_append, hc]

/-- **Counting along a text** leads to the mark behind it. -/
theorem eq_endMark_of_advance {front t : Text} {n : Mark} (h : front.endMark.advance t = .ok n) :
    n = Text.endMark (front ++ t) := by
  induction t generalizing front with
  | nil =>
    rw [List.append_nil]
    exact (Except.ok.inj h).symm
  | cons c t ih =>
    obtain ⟨k, hk, hn⟩ := advance_cons_eq_ok_iff.mp h
    obtain rfl := eq_endMark_of_step hk
    simpa using ih hn

end Mark

/-! ## The line of a place in a table -/

namespace Line

theorem lt_start_of_mem_behindBreaks {start : Nat} {t : Text} {line : Line}
    (h : line ∈ behindBreaks start t) : start < line.start := by
  induction t generalizing start with
  | nil => contradiction
  | cons c t ih =>
    have hc := c.utf8Size_pos
    rw [behindBreaks] at h
    split at h
    · rcases List.mem_cons.mp h with rfl | hmem
      · exact Nat.lt_add_of_pos_right hc
      · exact Nat.lt_trans (Nat.lt_add_of_pos_right hc) (ih hmem)
    · exact Nat.lt_trans (Nat.lt_add_of_pos_right hc) (ih h)

/-- The lines behind the line feeds of a front part are those that start by its end. -/
theorem any_start_le_behindBreaks_iff (start : Nat) (front rest : Text) (n : Nat) :
    (behindBreaks start (front ++ rest))[n]?.any (·.start ≤ start + Text.byteSize front) = true ↔
      n < front.count '\n' := by
  induction front generalizing start n with
  | nil =>
    cases hline : (behindBreaks start rest)[n]? with
    | none => simp [hline]
    | some line =>
      have hlt := lt_start_of_mem_behindBreaks (List.mem_of_getElem? hline)
      simpa [hline] using hlt
  | cons c front ih =>
    have hsize : start + Text.byteSize (c :: front) =
        start + c.utf8Size + Text.byteSize front := by
      rw [Text.byteSize_cons, Nat.add_assoc]
    rw [List.cons_append, behindBreaks, hsize]
    by_cases hc : c = '\n'
    · subst hc
      cases n with
      | zero => simp [ofText]
      | succ n => simpa using ih _ n
    · rw [if_neg hc, ih, List.count_cons_of_ne (by simpa using hc)]

/-- The line behind a line feed. -/
theorem getElem?_behindBreaks (start : Nat) (front rest : Text) :
    (behindBreaks start (front ++ '\n' :: rest))[front.count '\n']? =
      some (ofText (start + Text.byteSize (front ++ ['\n'])) rest) := by
  induction front generalizing start with
  | nil => simp [behindBreaks]
  | cons c front ih =>
    have hsize : start + Text.byteSize (c :: front ++ ['\n']) =
        start + c.utf8Size + Text.byteSize (front ++ ['\n']) := by
      rw [List.cons_append, Text.byteSize_cons, Nat.add_assoc]
    rw [List.cons_append, behindBreaks, hsize, ← ih]
    by_cases hc : c = '\n'
    · subst hc
      simp
    · rw [if_neg hc, List.count_cons_of_ne (by simpa using hc)]

/-- The column of a place is the number of characters in front of it on the line. -/
theorem column_ofText (start : Nat) (front rest : Text) :
    (ofText start (front ++ rest)).column (start + Text.byteSize front) = front.length := by
  have hpass : Text.passBytes? 0 (front ++ rest) (Text.byteSize front) =
      some (front.length, rest) := by
    rw [Text.passBytes?_eq, Text.takeBytes?_append, Text.dropBytes?_append]
    simp
  simp [column, locate, ofText, hpass]

end Line

namespace LineTable

theorem startsBy_ofText_iff (front rest : Text) (n : Nat) :
    (ofText (front ++ rest)).startsBy (Text.byteSize front) n = true ↔ n ≤ front.count '\n' := by
  cases n with
  | zero => simp [startsBy, line?_ofText_zero, Line.ofText]
  | succ n =>
    have h := Line.any_start_le_behindBreaks_iff 0 front rest n
    rw [Nat.zero_add] at h
    rw [Nat.succ_le_iff, ← h]
    simp [startsBy, line?, ofText]

/-- **Halving finds the line of a place**: its number is that of the line feeds in front. -/
theorem index_ofText (front rest : Text) :
    (ofText (front ++ rest)).index (Text.byteSize front) = front.count '\n' := by
  have hle := startsBy_index (front ++ rest) (Text.byteSize front)
  have hlt := startsBy_index_succ (front ++ rest) (Text.byteSize front)
  rw [startsBy_ofText_iff] at hle
  rw [← Bool.not_eq_true, startsBy_ofText_iff] at hlt
  omega

/-- The line of a place starts behind the last line feed in front of it. -/
theorem line?_count (front rest : Text) :
    (ofText (front ++ rest)).line? (front.count '\n') =
      some (Line.ofText (Text.byteSize (front.rdropWhile (· ≠ '\n')))
        (front.rtakeWhile (· ≠ '\n') ++ rest)) := by
  induction front using List.reverseRecOn generalizing rest with
  | nil => simpa using line?_ofText_zero rest
  | append_singleton front c ih =>
    rw [List.append_assoc, List.singleton_append, List.rdropWhile_concat, List.rtakeWhile_concat]
    by_cases hc : c = '\n'
    · subst hc
      have h := Line.getElem?_behindBreaks 0 front rest
      rw [Nat.zero_add] at h
      simpa [line?, ofText, List.count_append] using h
    · have hcount : (front ++ [c]).count '\n' = front.count '\n' := by
        simp [List.count_append, hc]
      rw [hcount, ih]
      simp [hc]

/-- **A table finds the line and column that the text in front of a place has.** -/
theorem position_ofText (front rest : Text) :
    (ofText (front ++ rest)).position (Text.byteSize front) =
      (front.endMark.line, front.endMark.column) := by
  have hsize : Text.byteSize front = Text.byteSize (front.rdropWhile (· ≠ '\n')) +
      Text.byteSize (front.rtakeWhile (· ≠ '\n')) := by
    rw [← Text.byteSize_append, List.rdropWhile_append_rtakeWhile]
  rw [position, index_ofText, line?_count, Text.endMark, Nat.add_comm 1, hsize]
  simp only [Option.map_some, Option.getD_some, Line.column_ofText]

end LineTable

/-! ## Sessions -/

/-- The line and column of a span are those that a file with the text `source` computes for its
start. -/
def Span.AgreesWith (source : Text) (span : Span) : Prop :=
  ∀ id name, (SourceFile.mk id name source).position span.start = (span.line, span.column)

namespace Lexer

/-- The lexer knows its place in `source`. -/
structure Located (source : Text) (l : Lexer) : Prop where
  /-- The offset is an edge of a character, not past the end. -/
  edge : Text.IsEdge source l.mark.offset ∧ l.mark.offset ≤ Text.byteSize source
  /-- The mark is what the text in front of it says: the line is one more than its line feeds, the
  column the number of characters behind the last of them. -/
  mark_eq : ∃ before, before ++ l.rest = source ∧ l.mark = Text.endMark before
  /-- The line and column are those that a file with the same text computes for the offset. -/
  position_eq : ∀ id name,
    (SourceFile.mk id name source).position l.mark.offset = (l.mark.line, l.mark.column)

/-- A lexer that stands behind a text is at the mark that the text determines. -/
theorem Stands.mark_eq {source before : Text} {l : Lexer} (h : l.Stands source before) :
    l.mark = Text.endMark before := by
  have hadvance : (Text.endMark []).advance before = .ok l.mark := h.advance_eq
  simpa using Mark.eq_endMark_of_advance hadvance

theorem Stands.located {source before : Text} {l : Lexer} (h : l.Stands source before) :
    l.Located source := by
  have hmark := h.mark_eq
  have hoffset := h.offset_eq
  obtain rfl := h.append_rest
  refine ⟨⟨?_, ?_⟩, ⟨before, rfl, hmark⟩, fun id name => ?_⟩
  · rw [hoffset]
    exact Text.isEdge_append before l.rest
  · rw [hoffset]
    exact Text.byteSize_le_append before l.rest
  · rw [hoffset, hmark]
    exact LineTable.position_ofText before l.rest

/-- A span that starts at the mark of the lexer has its line and column. -/
theorem Located.agreesWith_spanTo {source : Text} {l : Lexer} (h : l.Located source)
    (stop : Nat) : (l.spanTo stop).AgreesWith source :=
  h.position_eq

/-- **Lines and columns are exact**: every lexer of a session on a source of less than `2 ^ 29`
bytes knows its place, every call has an answer, and the span of what it gives has the line and
column that a file with the same text computes. -/
theorem located_of_reachable {source : Text} {file : FileId} {l : Lexer}
    (hsize : Text.byteSize source < 2 ^ 29) (h : Reachable source file l) :
    l.Located source ∧ ∀ c, ∃ r m, l.call c = .ok (r, m) ∧
      ∀ span, r.span? = some span → span.AgreesWith source := by
  obtain ⟨before, hstands⟩ := h.stands
  refine ⟨hstands.located, fun c => ?_⟩
  obtain ⟨r, m, hcall⟩ := h.exists_call hsize c
  refine ⟨r, m, hcall, fun span hspan => ?_⟩
  obtain ⟨stop, rfl⟩ := span?_of_call hcall hspan
  exact hstands.located.agreesWith_spanTo stop

/-- Behind a string that runs over a line break: the character that no rule takes is the fifth on
the second line. -/
theorem located_of_reachable_triple_quoted :
    Text.byteSize ['"', '"', '"', '\r', '\n', 'é', '"', '"', '"', '$'] < 2 ^ 29 ∧
      ∃ l, Reachable ['"', '"', '"', '\r', '\n', 'é', '"', '"', '"', '$'] ⟨3⟩ l ∧
        l.mark = ⟨10, 2, 4⟩ ∧
        Located ['"', '"', '"', '\r', '\n', 'é', '"', '"', '"', '$'] l ∧
        ∃ r m, l.call .next = .ok (r, m) ∧ r.span? = some ⟨10, 11, 2, 4, ⟨3⟩⟩ ∧
          Span.AgreesWith ['"', '"', '"', '\r', '\n', 'é', '"', '"', '"', '$']
            ⟨10, 11, 2, 4, ⟨3⟩⟩ := by
  have hsize : Text.byteSize ['"', '"', '"', '\r', '\n', 'é', '"', '"', '"', '$'] < 2 ^ 29 := by
    decide
  have hcall : (ofSource ['"', '"', '"', '\r', '\n', 'é', '"', '"', '"', '$'] ⟨3⟩).call .next =
      .ok (_, ⟨⟨3⟩, ['$'], ⟨10, 2, 4⟩, ⟨0, false, false, 0⟩, 1, false, false⟩) := rfl
  have hreachable := Reachable.start.call hcall
  obtain ⟨hlocated, hspans⟩ := located_of_reachable hsize hreachable
  obtain ⟨r, m, hnext, hagrees⟩ := hspans .next
  obtain rfl : r = .reply (.error ⟨.unrecognized '$', ⟨10, 11, 2, 4, ⟨3⟩⟩⟩) :=
    congrArg Prod.fst (Except.ok.inj hnext).symm
  exact ⟨hsize, _, hreachable, rfl, hlocated, _, m, hnext, rfl, hagrees _ rfl⟩

end Lexer

end Lexis
