import Lexis.Proofs.BlankLine
import Lexis.Proofs.Bounds
import Lexis.Proofs.Choice

/-!
# Carets

A diagnostic is shown with the line on which it starts and a row of carets below. On the way from
the span of the diagnostic to the two rows, bytes become characters, lines counted from zero become
lines counted from one, and the line loses its end. The first caret comes out below the character at
which the span starts: the two rows have gutters of the same width, and what the line loses is
behind that character, unless it is a carriage return that the line loses as well.

* `Text.physicalLines`: the lines of a text, and `Text.getElem?_physicalLines`, the line of a place.
* `LineTable.snippet?_ofText`: the snippet of a part of a text.
* `Snippet.idxOf_underline`: where the first caret stands. `Snippet.caretBelow` says that it is
  below the character in its column.
* `Span.Outlines`: the span of a part of a text. `Lexer.Stands.exists_outlines` says that a lexer
  answers with such spans, and that those of errors and brackets do not start with a line feed.
* `Snippet.PointsAt`: what a snippet has to do with a span. `exists_snippet?_of_recover` says that
  the diagnostics of a recovery have such snippets.
-/

namespace Lexis

/-! ## Physical lines -/

namespace Text

/-- The lines of a text, without the line feeds between them. -/
def physicalLines (t : Text) : List Text := t.splitOn '\n'

theorem physicalLines_cons {c : Char} (t : Text) (hc : c ≠ '\n') :
    physicalLines (c :: t) = (physicalLines t).modifyHead (c :: ·) := by
  simp [physicalLines, List.splitOn, List.splitOnP_cons_eq_if_modifyHead, hc]

theorem physicalLines_append_feed (front rest : Text) :
    physicalLines (front ++ '\n' :: rest) = physicalLines front ++ physicalLines rest :=
  List.splitOnP_append_cons front rest (beq_self_eq_true '\n')

theorem length_physicalLines (t : Text) : (physicalLines t).length = t.count '\n' + 1 := by
  induction t with
  | nil => rfl
  | cons c t ih =>
    by_cases hc : c = '\n'
    · subst hc
      have happend := physicalLines_append_feed [] t
      rw [List.nil_append] at happend
      rw [happend, List.length_append, ih, List.count_cons_self, Nat.add_comm]
      rfl
    · rw [physicalLines_cons t hc, List.length_modifyHead, ih, List.count_cons_of_ne hc]

/-- The first line. -/
theorem head?_physicalLines (t : Text) :
    (physicalLines t).head? = some (t.takeWhile (· ≠ '\n')) := by
  induction t with
  | nil => rfl
  | cons c t ih =>
    by_cases hc : c = '\n'
    · subst hc
      have happend := physicalLines_append_feed [] t
      rw [List.nil_append] at happend
      rw [happend]
      rfl
    · rw [physicalLines_cons t hc, List.head?_modifyHead, ih]
      simp [hc]

/-- **The line of a place**: its number is that of the line feeds in front. -/
theorem getElem?_physicalLines (front rest : Text) :
    (physicalLines (front ++ rest))[front.count '\n']? =
      some (lastLine front ++ rest.takeWhile (· ≠ '\n')) := by
  induction front using List.reverseRecOn generalizing rest with
  | nil =>
    rw [List.count_nil, ← List.head?_eq_getElem?]
    exact head?_physicalLines rest
  | append_singleton front c ih =>
    rw [List.append_assoc, List.singleton_append]
    by_cases hc : c = '\n'
    · subst hc
      have hcount : (front ++ ['\n']).count '\n' = (physicalLines front).length := by
        rw [length_physicalLines, List.count_append, List.count_singleton_self]
      rw [physicalLines_append_feed, hcount, List.getElem?_append_right (Nat.le_refl _),
        Nat.sub_self, ← List.head?_eq_getElem?, head?_physicalLines,
        lastLine_append_of_getLast? front rfl, List.nil_append]
    · have hmem : '\n' ∉ [c] := by simpa using Ne.symm hc
      rw [List.count_append, List.count_eq_zero_of_not_mem hmem, Nat.add_zero, ih,
        lastLine_append_of_not_mem front hmem]
      simp [hc]

end Text

/-! ## Snippets -/

/-- What a line covers of a part of a text that starts on it: the characters in front of the first
line feed. -/
theorem Line.cover_ofText {start : Nat} {front taken : Text} (rest : Text) {span : Span}
    (hstart : span.start = start + Text.byteSize front)
    (hstop : span.stop = start + Text.byteSize (front ++ taken)) :
    (ofText start (front ++ (taken ++ rest))).cover span =
      (front.length, front.length + (taken.takeWhile (· ≠ '\n')).length) := by
  have hlocate : (ofText start (front ++ (taken ++ rest))).locate span.start =
      (front.length, some (taken ++ rest)) := by
    have hpass : Text.passBytes? 0 (front ++ (taken ++ rest)) (Text.byteSize front) =
        some (front.length, taken ++ rest) := by
      rw [Text.passBytes?_eq, Text.takeBytes?_append, Text.dropBytes?_append]
      simp
    rw [locate, hstart, ofText, Nat.add_sub_cancel_left, hpass]
  have hwidth : span.stop - span.start = Text.byteSize taken := by
    rw [hstart, hstop, Text.byteSize_append]
    omega
  have hle : span.start ≤ span.stop := by
    rw [hstart, hstop]
    exact Nat.add_le_add_left (Text.byteSize_le_append front taken) start
  have hfront : frontWidth (taken ++ rest) (Text.byteSize taken) =
      (taken.takeWhile (· ≠ '\n')).length := by
    rw [frontWidth_eq, Text.takeBytes?_append]
    rfl
  simp only [cover, hlocate, if_pos hle, hwidth, hfront]

namespace LineTable

open Text

/-- **The snippet of a part of a text** shows the line on which the part starts and underlines what
is on it. -/
theorem snippet?_ofText {before taken : Text} (rest : Text) {span : Span} (label : Option String)
    (hstart : span.start = byteSize before) (hstop : span.stop = byteSize (before ++ taken)) :
    (ofText (before ++ (taken ++ rest))).snippet? span label =
      let line := (lastLine before ++ (taken ++ rest).takeWhile (· ≠ '\n')).rdropWhile (· = '\r')
      let column := (lastLine before).length
      some ⟨line, before.count '\n' + 1, column,
        min (column + (taken.takeWhile (· ≠ '\n')).length) (max line.length column), label⟩ := by
  have hline := line?_count before (taken ++ rest)
  rw [← index_ofText before (taken ++ rest), ← hstart] at hline
  have hcover : (Line.ofText (byteSize (fullLines before))
      (lastLine before ++ (taken ++ rest))).cover span =
      ((lastLine before).length,
        (lastLine before).length + (taken.takeWhile (· ≠ '\n')).length) := Line.cover_ofText rest
    (by rw [hstart, ← byteSize_append, fullLines_append_lastLine])
    (by rw [hstop, ← byteSize_append, ← List.append_assoc, fullLines_append_lastLine])
  have htext : (Line.ofText (byteSize (fullLines before))
      (lastLine before ++ (taken ++ rest))).text =
      (lastLine before ++ (taken ++ rest).takeWhile (· ≠ '\n')).rdropWhile (· = '\r') := by
    have hfront : ∀ c ∈ lastLine before, decide (c ≠ '\n') = true := by
      intro c hc
      rw [decide_eq_true_eq]
      rintro rfl
      exact not_mem_lastLine before hc
    rw [Line.text_ofText, List.takeWhile_append_of_pos hfront]
  have hindex : (ofText (before ++ (taken ++ rest))).index span.start = before.count '\n' := by
    rw [hstart, index_ofText]
  change (ofText _).line? _ = some (Line.ofText (byteSize (fullLines before))
    (lastLine before ++ (taken ++ rest))) at hline
  rw [snippet?_of_line? label hline, ← Line.fst_cover, hcover, Line.width_eq, htext, hindex]

end LineTable

namespace Snippet

/-- What is in front of the line in its row. -/
def gutter (s : Snippet) : Text :=
  List.replicate (s.gutterWidth - (Nat.toDigits 10 s.lineNumber).length) ' ' ++
    Nat.toDigits 10 s.lineNumber ++ divider

theorem length_gutter (s : Snippet) : s.gutter.length = s.gutterWidth + 3 := by
  have hle : (Nat.toDigits 10 s.lineNumber).length ≤ s.gutterWidth := Nat.le_max_right _ _
  rw [gutter, List.length_append, List.length_append, List.length_replicate,
    Nat.sub_add_cancel hle]
  rfl

theorem not_mem_gutter (s : Snippet) : '\n' ∉ s.gutter := by
  intro hmem
  rcases List.mem_append.mp hmem with hfront | hdivider
  · rcases List.mem_append.mp hfront with hblank | hdigit
    · exact absurd (List.eq_of_mem_replicate hblank) (by decide)
    · exact absurd (Nat.isDigit_of_mem_toDigits (by decide) (by decide) hdigit) (by decide)
  · exact absurd hdivider (by decide)

/-- **The first caret** stands behind the gutter and as many blanks as the column says. -/
theorem idxOf_underline (s : Snippet) :
    '^' ∈ s.underline ∧ s.underline.idxOf '^' = s.gutter.length + s.startColumn := by
  obtain ⟨n, hn⟩ : ∃ n, s.caretCount = n + 1 :=
    Nat.exists_eq_add_one_of_ne_zero (Nat.ne_of_gt (Nat.le_max_left _ _))
  have hfront : '^' ∉ List.replicate s.gutterWidth ' ' ++ divider ++
      List.replicate s.startColumn ' ' := by
    simp [divider]
  rw [underline, hn, List.replicate_succ, List.append_assoc]
  refine ⟨by simp, ?_⟩
  rw [List.idxOf_append_of_notMem hfront, List.cons_append, List.idxOf_cons_self, length_gutter]
  simp only [divider, List.length_append, List.length_replicate, List.length_cons, List.length_nil]
  omega

/-- Without a label the row with the carets is one row. -/
theorem not_mem_underline {s : Snippet} (hlabel : s.label = none) : '\n' ∉ s.underline := by
  simp [underline, labelText, hlabel, divider]

end Snippet

/-! ## From a span to its carets -/

/-- The span is that of the text `taken` behind `before`, with the line and column of its start. -/
structure Span.Outlines (before taken : Text) (span : Span) : Prop where
  start_eq : span.start = Text.byteSize before
  stop_eq : span.stop = Text.byteSize (before ++ taken)
  line_eq : span.line = before.count '\n' + 1
  column_eq : span.column = (Text.lastLine before).length

/-- Of the two rows that are shown, the second has its first caret below the character `c` in the
first, in the column of the snippet behind a gutter. If the character is a carriage return that is
not shown, the caret is at the end of the first row or behind it. -/
def Snippet.CaretBelow (s : Snippet) (c : Char) : Prop :=
  ∃ gutter below, s.format = String.ofList (gutter ++ s.line ++ '\n' :: below) ∧
    '\n' ∉ gutter ++ s.line ∧ '\n' ∉ below ∧ '^' ∈ below ∧
    below.idxOf '^' = gutter.length + s.startColumn ∧
    ((gutter ++ s.line)[below.idxOf '^']? = some c ∨
      c = '\r' ∧ s.line.length ≤ s.startColumn ∧ (gutter ++ s.line).length ≤ below.idxOf '^')

/-- The snippet shows the line `row` of the source, on which the span starts with the character
`c`, and its carets are below. -/
structure Snippet.PointsAt (source : Text) (span : Span) (row : Text) (c : Char) (s : Snippet) :
    Prop where
  /-- The line has the number that the span says. -/
  line_eq : ∃ n, span.line = n + 1 ∧ source.physicalLines[n]? = some row
  /-- The span starts with the character, in the column that it says. -/
  char_eq : source.charAt? span.start = some c ∧ row[span.column]? = some c
  lineNumber_eq : s.lineNumber = span.line
  startColumn_eq : s.startColumn = span.column
  /-- The line is shown without the carriage returns at its end. -/
  text_eq : s.line = row.rdropWhile (· = '\r')
  /-- What is in front of the first line feed of the span is underlined, up to the end of what is
  shown. -/
  endColumn_eq : ∃ text, Text.slice? source span.start span.stop = some text ∧
    s.endColumn = min (s.startColumn + (text.takeWhile (· ≠ '\n')).length)
      (max s.line.length s.startColumn)
  /-- Its first caret is below the character. -/
  caret : s.CaretBelow c

/-- What is in a list stays where it is if the end of the list is dropped, or is dropped as well. -/
theorem getElem?_rdropWhile {α : Type} {p : α → Bool} {l : List α} {i : Nat} {a : α}
    (h : l[i]? = some a) :
    (l.rdropWhile p)[i]? = some a ∨ p a = true ∧ (l.rdropWhile p).length ≤ i := by
  have hsplit : l.rdropWhile p ++ l.rtakeWhile p = l := List.rdropWhile_append_rtakeWhile
  rw [← hsplit] at h
  by_cases hi : i < (l.rdropWhile p).length
  · rw [List.getElem?_append_left hi] at h
    exact .inl h
  · rw [Nat.not_lt] at hi
    rw [List.getElem?_append_right hi] at h
    exact .inr ⟨List.mem_rtakeWhile_imp (List.mem_of_getElem? h), hi⟩

/-- **The first caret is below the character in the column of the snippet.** -/
theorem Snippet.caretBelow {s : Snippet} {row : Text} {c : Char} (hlabel : s.label = none)
    (hfeed : '\n' ∉ row) (htext : s.line = row.rdropWhile (· = '\r'))
    (hchar : row[s.startColumn]? = some c) : s.CaretBelow c := by
  obtain ⟨hmem, hindex⟩ := s.idxOf_underline
  have hshown : '\n' ∉ s.gutter ++ s.line := by
    rw [List.mem_append, not_or, htext]
    exact ⟨s.not_mem_gutter, fun h => hfeed ((List.rdropWhile_prefix _ _).subset h)⟩
  refine ⟨s.gutter, s.underline, rfl, hshown, not_mem_underline hlabel, hmem, hindex, ?_⟩
  rw [hindex, List.getElem?_append_right (Nat.le_add_right _ _), Nat.add_sub_cancel_left, htext]
  rcases getElem?_rdropWhile (p := (· = '\r')) hchar with hshows | ⟨hreturn, hle⟩
  · exact .inl hshows
  · rw [List.length_append]
    exact .inr ⟨of_decide_eq_true hreturn, hle, Nat.add_le_add_left hle _⟩

/-- **The snippet of a part of a text points at its first character.** -/
theorem Span.Outlines.exists_snippet? {before more : Text} {c : Char} {span : Span}
    (h : span.Outlines before (c :: more)) (hc : c ≠ '\n') (rest : Text) :
    ∃ s line, (∀ id name, (SourceFile.mk id name (before ++ (c :: more ++ rest))).snippet? span =
      some s) ∧ s.PointsAt (before ++ (c :: more ++ rest)) span line c := by
  -- the line of the span, and the character on it
  have hphysical := Text.getElem?_physicalLines before (c :: more ++ rest)
  have hchar : (Text.lastLine before ++ (c :: more ++ rest).takeWhile (· ≠ '\n'))[span.column]? =
      some c := by
    rw [h.column_eq, List.getElem?_append_right (Nat.le_refl _), Nat.sub_self]
    simp [hc]
  have hfeed : '\n' ∉ Text.lastLine before ++ (c :: more ++ rest).takeWhile (· ≠ '\n') := by
    intro hmem
    rcases List.mem_append.mp hmem with hfront | hbehind
    · exact Text.not_mem_lastLine before hfront
    · exact absurd (List.mem_takeWhile_imp hbehind) (by decide)
  have hsnippet := LineTable.snippet?_ofText rest none h.start_eq h.stop_eq
  generalize Text.lastLine before ++ (c :: more ++ rest).takeWhile (· ≠ '\n') = line
    at hphysical hchar hfeed hsnippet
  refine ⟨_, line, fun _ _ => hsnippet, ⟨_, h.line_eq, hphysical⟩, ⟨?_, hchar⟩, h.line_eq.symm,
    h.column_eq.symm, rfl, ⟨c :: more, ?_, rfl⟩, ?_⟩
  · rw [h.start_eq]
    exact Text.charAt?_append before c (more ++ rest)
  · rw [h.start_eq, h.stop_eq, Text.byteSize_append, ← List.append_assoc, Text.slice?_append]
  · exact Snippet.caretBelow rfl hfeed rfl (h.column_eq ▸ hchar)

/-! ## Diagnostics -/

namespace Lexer

variable {source before : Text} {l : Lexer} {u : Turn}

/-- In front of a line feed there is a newline. -/
theorem exists_newline_of_next {t : Text} (hrest : l.rest = '\n' :: t) (hnext : l.next = .ok u) :
    ∃ token, u.reply = .ok token ∧ token.kind = .layout .newline := by
  have hbreak : 0 < Rule.newlines ('\n' :: t) := Nat.succ_pos _
  have hscan := (Choice.newline (s := l.surroundings) hbreak).scan_eq
  obtain ⟨token, hreply, hkind, -⟩ := exists_token_of_scan hrest hnext (by rw [hscan]; rfl)
  exact ⟨token, hreply, hkind⟩

/-- A span from where the lexer stands has the line and column of the text that is read. -/
theorem Stands.outlines (h : l.Stands source before) (taken : Text) :
    (l.spanTo (Text.byteSize (before ++ taken))).Outlines before taken := by
  rw [spanTo, h.mark_eq]
  exact ⟨rfl, rfl, Nat.add_comm _ _, rfl⟩

/-- **What is answered outlines some text ahead of the lexer**, and but for a newline and the end of
the input, this does not start with a line feed. -/
theorem Stands.exists_outlines (h : l.Stands source before) (hnext : l.next = .ok u)
    (hreply : ∀ t, u.reply = .ok t → t.isEof = false ∧ t.kind ≠ .layout .newline) :
    ∃ c more rest, source = before ++ (c :: more ++ rest) ∧ c ≠ '\n' ∧
      (replySpan u.reply).Outlines before (c :: more) := by
  have htaken : ∃ taken rest, taken ≠ [] ∧ source = before ++ (taken ++ rest) ∧
      replySpan u.reply = l.spanTo (Text.byteSize (before ++ taken)) := by
    cases hanswer : u.reply with
    | error e =>
      obtain ⟨taken, left, hne, hsource, hspan⟩ := h.error hnext hanswer
      exact ⟨taken, left, hne, by rw [← hsource, List.append_assoc], hspan⟩
    | ok t =>
      obtain ⟨taken, hne, hspans, hstands, -⟩ := h.token hnext hanswer (hreply t hanswer).1
      obtain ⟨stop, hspan⟩ := replySpan_of_next hnext
      rw [hanswer] at hspan
      have hstop : stop = Text.byteSize (before ++ taken) := by
        rw [← hspans.stop_eq, show t.span = l.spanTo stop from hspan]
        rfl
      refine ⟨taken, u.lexer.rest, hne, ?_, hstop ▸ hspan⟩
      rw [← hstands.append_rest, List.append_assoc]
  obtain ⟨taken, rest, hne, hsource, hspan⟩ := htaken
  obtain ⟨c, more, rfl⟩ := List.exists_cons_of_ne_nil hne
  refine ⟨c, more, rest, hsource, ?_, hspan ▸ h.outlines (c :: more)⟩
  rintro rfl
  have hrest : l.rest = '\n' :: (more ++ rest) := by
    rw [← h.append_rest, List.append_cancel_left_eq] at hsource
    exact hsource
  obtain ⟨t, ht, hkind⟩ := exists_newline_of_next hrest hnext
  exact (hreply t ht).2 hkind

/-- A token behind which more stray brackets are counted is a closing bracket. -/
theorem closes_of_lt {t : Token} (hnext : l.next = .ok u) (ht : u.reply = .ok t)
    (hlt : l.context.unmatchedClosers < u.lexer.context.unmatchedClosers) :
    t.kind.closes = true := by
  cases heof : t.isEof with
  | true =>
    obtain ⟨-, rfl⟩ := eq_finish_of_isEof hnext ht heof
    exact absurd hlt (Nat.lt_irrefl _)
  | false =>
    rw [Context.after_eq_ok (context_of_token hnext ht heof)] at hlt
    by_contra hcloses
    simp [hcloses] at hlt

end Lexer

/-- The diagnostic of a step is about an error or a closing bracket. -/
theorem Recovery.span_of_diagnostic {l : Lexer} {u : Turn} {s : Step} {d : Diagnostic}
    (hnext : l.next = .ok u) (hstep : (∃ t, u.reply = .ok t ∧ s = .ofToken l u t) ∨
      ∃ e char?, u.reply = .error e ∧ s = .ofError u e char?) (hd : s.diagnostic? = some d) :
    d.span = Lexer.replySpan u.reply ∧ ∀ t, u.reply = .ok t → t.kind.closes = true := by
  obtain ⟨t, ht, rfl⟩ | ⟨e, char?, he, rfl⟩ := hstep
  · obtain ⟨hlt, rfl⟩ := eq_warning_of_ofToken hd
    rw [ht]
    refine ⟨rfl, ?_⟩
    rintro _ ⟨⟩
    exact Lexer.closes_of_lt hnext ht hlt
  · obtain rfl := Option.some.inj hd
    rw [he]
    exact ⟨rfl, fun t ht => nomatch ht⟩

/-- **Carets point at the offending text**: reading on in a source of less than `2 ^ 29` bytes ends,
and each new diagnostic has a snippet in every file with the same text, whose carets are below the
character at which the diagnostic starts. -/
theorem exists_snippet?_of_recover (source : Text) (handler : Handler)
    (hsize : Text.byteSize source < 2 ^ 29) :
    ∃ tokens handler' new, recover source handler = .ok (tokens, handler') ∧
      handler'.diagnostics = handler.diagnostics ++ new ∧
      ∀ d ∈ new, ∃ s line c,
        (∀ id name, (SourceFile.mk id name source).snippet? d.span = some s) ∧
          s.PointsAt source d.span line c := by
  obtain ⟨ss, hsteps, -⟩ := Recovery.exists_steps (Lexer.stands_ofSource source .unknown) hsize
  refine ⟨_, _, Recovery.diagnostics ss, recover_of_steps hsteps handler,
    handler.diagnostics_emitAll _, fun d hd => ?_⟩
  obtain ⟨s, hs, hdiagnostic⟩ := List.mem_filterMap.mp hd
  obtain ⟨k, u, hk, hnext, hstep⟩ := (Recovery.reads_of_steps hsteps).exists_next_of_mem .start hs
  obtain ⟨before, hstands⟩ := hk.stands
  obtain ⟨hspan, hcloses⟩ := Recovery.span_of_diagnostic hnext hstep hdiagnostic
  have hreply : ∀ t, u.reply = .ok t → t.isEof = false ∧ t.kind ≠ .layout .newline := by
    intro t ht
    have hkind := hcloses t ht
    refine ⟨decide_eq_false ?_, ?_⟩
    · rintro heof
      rw [heof] at hkind
      contradiction
    · rintro heq
      rw [heq] at hkind
      contradiction
  obtain ⟨c, more, rest, rfl, hc, houtlines⟩ := hstands.exists_outlines hnext hreply
  rw [← hspan] at houtlines
  obtain ⟨s, line, hsnippet, hpoints⟩ := houtlines.exists_snippet? hc rest
  exact ⟨s, line, c, hsnippet, hpoints⟩

/-- A character of two bytes, another one behind it, and a carriage return that is not shown. -/
theorem exists_snippet?_of_recover_carriage_return :
    Text.byteSize ['é', '$', '\r'] < 2 ^ 29 ∧
      ∃ tokens handler' new, recover ['é', '$', '\r'] ⟨[]⟩ = .ok (tokens, handler') ∧
        handler'.diagnostics = [] ++ new ∧
        new.map (·.span) = [⟨0, 2, 1, 0, ⟨0⟩⟩, ⟨2, 3, 1, 1, ⟨0⟩⟩, ⟨3, 4, 1, 2, ⟨0⟩⟩] ∧
        ∀ d ∈ new, ∃ s line c,
          (∀ id name, (SourceFile.mk id name ['é', '$', '\r']).snippet? d.span = some s) ∧
            s.PointsAt ['é', '$', '\r'] d.span line c := by
  have hsize : Text.byteSize ['é', '$', '\r'] < 2 ^ 29 := by decide
  have hspans : (recover ['é', '$', '\r'] ⟨[]⟩).map (fun p => p.2.diagnostics.map (·.span)) =
      .ok [⟨0, 2, 1, 0, ⟨0⟩⟩, ⟨2, 3, 1, 1, ⟨0⟩⟩, ⟨3, 4, 1, 2, ⟨0⟩⟩] := by decide +kernel
  obtain ⟨tokens, handler', new, hrecover, hnew, hpoints⟩ :=
    exists_snippet?_of_recover ['é', '$', '\r'] ⟨[]⟩ hsize
  refine ⟨hsize, tokens, handler', new, hrecover, hnew, ?_, hpoints⟩
  rw [hrecover] at hspans
  have hdiagnostics : handler'.diagnostics = new := hnew
  exact hdiagnostics ▸ Except.ok.inj hspans

end Lexis
