import Lexis.Cursor
import Lexis.Proofs.Feed
import Lexis.Proofs.LineColumn

/-!
# Nothing out of bounds

On a source of less than `2 ^ 29` bytes nothing that is counted outgrows its word, and nothing is
cut out of the source but at the edges of its characters. Each count is held down by the characters
that were consumed for it: lines, columns and brackets by one for each, indentation by eight.

* `Cursor.remaining_of_offset`, `Cursor.sliceFrom_of_offset`, `Cursor.exists_peek`: what a cursor at
  the edge of a character can cut and see.
* `exists_indentColumns`: the columns of indentation fit, one by one.
* `Lexer.InBounds`, `Span.InBounds`: what is asked of a lexer and of a span.
* `Lexer.Reachable.inBounds`, `Lexer.Gives.inBounds`: the lexers of a session and the spans that
  they give are in bounds.
* `FaultFree`: whatever is done with a source has an answer. `faultFree_of_byteSize_lt` says that
  this is so of every short source.
-/

namespace Lexis

/-! ## Cursors at the edge of a character -/

namespace Cursor

/-- Behind a front part of the source, the rest of it remains. -/
theorem remaining_of_offset {c : Cursor} {front rest : Text} (hsource : c.source = front ++ rest)
    (hoffset : c.mark.offset = Text.byteSize front) : c.remaining = .ok rest := by
  rw [remaining_eq, hsource, hoffset, Text.dropBytes?_append]
  rfl

/-- From one place to a later one, the text between them is cut out. -/
theorem sliceFrom_of_offset {c : Cursor} {front taken rest : Text}
    (hsource : c.source = front ++ taken ++ rest)
    (hoffset : c.mark.offset = Text.byteSize (front ++ taken)) :
    c.sliceFrom (Text.byteSize front) = .ok taken := by
  rw [sliceFrom, hsource, hoffset, Text.byteSize_append, Text.slice?_append]
  rfl

/-- What lies ahead can be looked at, however far. -/
theorem exists_peek {c : Cursor} {rest : Text} (h : c.remaining = .ok rest) (n : Nat) :
    ∃ char?, c.peek n = .ok char? := by
  unfold peek
  split
  · exact ⟨_, rfl⟩
  · split
    · exact ⟨_, rfl⟩
    · exact ⟨rest[n]?, by rw [peekSlow, h]; rfl⟩

end Cursor

/-! ## The columns of indentation -/

/-- **The columns of indentation fit** if there is room for a tab for each character. -/
theorem exists_indentColumns {column : Nat} {t : Text}
    (h : column + tabWidth * t.length < Checked.wordSize) :
    ∃ columns, indentColumns column t = .ok columns := by
  induction t generalizing column with
  | nil => exact ⟨[], rfl⟩
  | cons c t ih =>
    have hstep := indentStep_le column c
    rw [List.length_cons, Nat.mul_succ] at h
    have hword : Checked.word (indentStep column c) = .ok (indentStep column c) :=
      Checked.word_of_lt (by omega)
    have hroom : indentStep column c + tabWidth * t.length < Checked.wordSize := by omega
    obtain ⟨columns, hcolumns⟩ := ih hroom
    refine ⟨indentStep column c :: columns, ?_⟩
    simp only [indentColumns, hword, hcolumns, bind, Except.bind]
    rfl

/-! ## Lexers -/

namespace Lexer

/-- Nothing that the lexer has counted or can come to count, and nothing that it can cut out of the
source from here on, is out of bounds. -/
structure InBounds (source : Text) (l : Lexer) : Prop where
  /-- The brackets counted fit their words. -/
  brackets : l.context.depth < Checked.wordSize ∧ l.context.unmatchedClosers < Checked.wordSize
  /-- One more of each would fit. -/
  bracket : ∀ kind, ∃ context, l.context.after kind = .ok context
  /-- The columns of indentation that is in front of the lexer fit, one by one. -/
  indent : ∃ columns, indentColumns 0 (l.rest.takeWhile isIndent) = .ok columns
  /-- Wherever a rule gets to, line and column fit, what remains begins at an edge, what was read is
  cut at edges, and what is ahead can be looked at. -/
  cursor : ∀ taken left, l.rest = taken ++ left → ∃ k, l.mark.advance taken = .ok k ∧
    k.line < Checked.wordSize ∧ k.column < Checked.wordSize ∧
    (Cursor.mk source k _ rfl).remaining = .ok left ∧
    (Cursor.mk source k _ rfl).sliceFrom l.mark.offset = .ok taken ∧
    ∀ n, ∃ char?, (Cursor.mk source k _ rfl).peek n = .ok char?

namespace Stands

variable {source before : Text} {l : Lexer}

/-- There is room for each character of a source, and for a tab in its place. -/
theorem room (h : l.Stands source before) (hsize : Text.byteSize source < 2 ^ 29) :
    tabWidth * (before.length + l.rest.length) + tabWidth ≤ Checked.wordSize := by
  have hle := h.length_add_length_le
  unfold tabWidth Checked.wordSize
  omega

/-- **Where a lexer stands on a short source, nothing is out of bounds.** -/
theorem inBounds (h : l.Stands source before) (hsize : Text.byteSize source < 2 ^ 29) :
    l.InBounds source := by
  have hroom := h.room hsize
  have hbrackets := h.brackets_le
  have hplace := h.line_add_column_le
  unfold tabWidth at hroom
  refine ⟨⟨by omega, by omega⟩, fun kind => Context.exists_after kind (by omega), ?_, ?_⟩
  · have hle := (List.takeWhile_prefix (l := l.rest) isIndent).length_le
    apply exists_indentColumns
    unfold tabWidth
    omega
  · intro taken left hrest
    have hlength : taken.length ≤ l.rest.length := by
      rw [hrest, List.length_append]
      omega
    obtain ⟨k, hk⟩ := Mark.exists_advance (m := l.mark) (t := taken) (by omega)
    have hle := Mark.line_add_column_of_advance_le hk
    have hoffset := h.offset_stop hk
    have hsource : source = before ++ taken ++ left := by
      rw [List.append_assoc, ← hrest, h.append_rest]
    have hremaining : (Cursor.mk source k _ rfl).remaining = .ok left :=
      Cursor.remaining_of_offset hsource hoffset
    refine ⟨k, hk, by omega, by omega, hremaining, ?_, Cursor.exists_peek hremaining⟩
    rw [h.offset_eq]
    exact Cursor.sliceFrom_of_offset hsource hoffset

end Stands

theorem Reachable.inBounds {source : Text} {file : FileId} {l : Lexer}
    (h : Reachable source file l) (hsize : Text.byteSize source < 2 ^ 29) : l.InBounds source := by
  obtain ⟨before, hstands⟩ := h.stands
  exact hstands.inBounds hsize

end Lexer

/-! ## Spans -/

/-- The span is a part of the source, between edges of characters, and what a file makes of it is
in bounds. -/
structure Span.InBounds (source : Text) (span : Span) : Prop where
  /-- The text of the span can be cut out. -/
  slice : ∃ text, Text.slice? source span.start span.stop = some text
  /-- So can the part of its first line that is in front of it. -/
  lineSlice : ∃ line front,
    (LineTable.ofText source).line? ((LineTable.ofText source).index span.start) = some line ∧
      Text.slice? source line.start span.start = some front
  /-- The line and column that a file computes for its start fit their words. -/
  position : ∀ id name, ∃ line column,
    (SourceFile.mk id name source).position span.start = (line, column) ∧
      line < Checked.wordSize ∧ column < Checked.wordSize
  /-- There is a snippet of it, which can be printed. -/
  snippet : ∀ id name label, ∃ snippet,
    (SourceFile.mk id name source).snippet? span label = some snippet ∧ snippet.fits = true

namespace LineTable

/-- The text in front of a place on its line is a slice of the source. -/
theorem slice?_line (front rest : Text) :
    Text.slice? (front ++ rest) (Text.byteSize (front.rdropWhile (· ≠ '\n')))
      (Text.byteSize front) = some (front.rtakeWhile (· ≠ '\n')) := by
  have hsplit : front.rdropWhile (· ≠ '\n') ++ front.rtakeWhile (· ≠ '\n') = front :=
    List.rdropWhile_append_rtakeWhile
  have hslice := Text.slice?_append (front.rdropWhile (· ≠ '\n')) (front.rtakeWhile (· ≠ '\n')) rest
  rwa [← Text.byteSize_append, hsplit] at hslice

theorem snippet?_of_line? {t : LineTable} {span : Span} {line : Line} (label : Option String)
    (h : t.line? (t.index span.start) = some line) :
    t.snippet? span label = some {
      line := line.text
      lineNumber := t.index span.start + 1
      startColumn := line.column span.start
      endColumn := min (line.cover span).2 (max line.width (line.column span.start))
      label } := by
  rw [← Line.fst_cover, snippet?, h]
  rfl

/-- The line of a place is no longer than the text. -/
theorem length_text_ofText_le (start : Nat) (t : Text) :
    (Line.ofText start t).text.length ≤ t.length := by
  have hdrop := (List.dropWhile_suffix (l := (t.takeWhile (· ≠ '\n')).reverse) (· = '\r')).length_le
  have htake := (List.takeWhile_prefix (l := t) (· ≠ '\n')).length_le
  rw [List.length_reverse] at hdrop
  rw [Line.ofText, List.length_reverse]
  exact Nat.le_trans hdrop htake

/-- **A place of a text has a snippet**, whose columns are columns of the text. -/
theorem exists_snippet?_ofText {front : Text} (rest : Text) {span : Span} (label : Option String)
    (hstart : span.start = Text.byteSize front) :
    ∃ snippet, (ofText (front ++ rest)).snippet? span label = some snippet ∧
      snippet.startColumn ≤ (front ++ rest).length ∧
      snippet.endColumn ≤ (front ++ rest).length := by
  have hposition := position_ofText front rest
  have hline := line?_count front rest
  rw [← index_ofText front rest, ← hstart] at hline
  rw [position, ← hstart, hline] at hposition
  have hsuffix := List.rtakeWhile_suffix (p := (· ≠ '\n')) (l := front)
  have hcolumn : (Line.ofText (Text.byteSize (front.rdropWhile (· ≠ '\n')))
      (front.rtakeWhile (· ≠ '\n') ++ rest)).column span.start ≤ (front ++ rest).length := by
    have heq : Line.column _ span.start = _ := (Prod.mk.inj hposition).2
    rw [heq, List.length_append]
    exact Nat.le_trans hsuffix.length_le (Nat.le_add_right _ _)
  refine ⟨_, snippet?_of_line? label hline, hcolumn, ?_⟩
  refine Nat.le_trans (Nat.min_le_right _ _) (Nat.max_le.mpr ⟨?_, hcolumn⟩)
  rw [Line.width_eq]
  refine Nat.le_trans (length_text_ofText_le _ _) ?_
  rw [List.length_append, List.length_append]
  exact Nat.add_le_add_right hsuffix.length_le _

end LineTable

/-- **A part of a short source is in bounds.** -/
theorem Span.inBounds_of_split {before taken rest : Text} {span : Span}
    (hsize : Text.byteSize (before ++ taken ++ rest) < 2 ^ 29)
    (hstart : span.start = Text.byteSize before)
    (hstop : span.stop = Text.byteSize (before ++ taken)) :
    span.InBounds (before ++ taken ++ rest) := by
  have hlength := Text.length_le_byteSize (before ++ taken ++ rest)
  refine ⟨⟨taken, ?_⟩, ?_, ?_, ?_⟩
  · rw [hstart, hstop, Text.byteSize_append, Text.slice?_append]
  · rw [hstart, List.append_assoc, LineTable.index_ofText, LineTable.line?_count]
    exact ⟨_, _, rfl, LineTable.slice?_line before (taken ++ rest)⟩
  · intro id name
    have hcount := List.count_le_length (a := '\n') (l := before)
    have hcolumn := (List.rtakeWhile_suffix (p := (· ≠ '\n')) (l := before)).length_le
    simp only [List.length_append] at hlength
    refine ⟨before.endMark.line, before.endMark.column, ?_, ?_, ?_⟩
    · rw [hstart, List.append_assoc]
      exact LineTable.position_ofText before (taken ++ rest)
    · unfold Text.endMark Checked.wordSize
      dsimp only
      omega
    · unfold Text.endMark Checked.wordSize
      dsimp only
      omega
  · intro id name label
    obtain ⟨snippet, hsnippet, hfirst, hlast⟩ :=
      LineTable.exists_snippet?_ofText (taken ++ rest) label hstart
    rw [← List.append_assoc] at hsnippet hfirst hlast
    refine ⟨snippet, hsnippet, ?_⟩
    have hfits : snippet.startColumn ≤ Checked.maxSize ∧ snippet.caretCount ≤ Checked.maxSize := by
      unfold Snippet.caretCount Checked.maxSize
      omega
    simpa [Snippet.fits] using hfits

/-- **The spans that a session gives are in bounds.** -/
theorem Lexer.Gives.inBounds {source : Text} {file : FileId} {span : Span}
    (h : Gives source file span) (hsize : Text.byteSize source < 2 ^ 29) :
    span.InBounds source := by
  obtain ⟨l, u, hreachable, hnext, rfl⟩ := h
  obtain ⟨before, hstands⟩ := hreachable.stands
  cases hreply : u.reply with
  | error e =>
    obtain ⟨taken, left, -, rfl, hspan⟩ := hstands.error hnext hreply
    refine Span.inBounds_of_split hsize (hstands.start_of_error hnext hreply) ?_
    rw [replySpan, hspan]
    rfl
  | ok t =>
    cases heof : t.isEof with
    | true =>
      obtain ⟨hrest, rfl⟩ := eq_finish_of_isEof hnext hreply heof
      obtain rfl := Except.ok.inj hreply
      have hspans := (hstands.spans_eofToken hrest).2
      have hbounds : Span.InBounds (source ++ [] ++ []) l.eofToken.span :=
        Span.inBounds_of_split (by simpa using hsize) hspans.start_eq hspans.stop_eq
      rwa [List.append_nil, List.append_nil] at hbounds
    | false =>
      obtain ⟨taken, -, hspans, hstands', -⟩ := hstands.token hnext hreply heof
      obtain rfl := hstands'.append_rest
      exact Span.inBounds_of_split hsize hspans.start_eq hspans.stop_eq

/-! ## Whatever is done with a source -/

/-- Whatever is done with the source has an answer, with all counts and cuts in bounds. -/
structure FaultFree (source : Text) : Prop where
  /-- Calls of a lexer or of streams around it, in any order, with the lexer that is left. -/
  session : ∀ file acts, ∃ rs g,
    (Feed.lexer (.ofSource source file)).session acts = .ok (rs, g) ∧ g.inner.InBounds source ∧
      ∀ r ∈ rs, ∀ span, r.span? = some span → span.InBounds source
  /-- The strict run. -/
  tokenize : ∃ result, tokenize source = .ok result ∧
    ∀ span ∈ outcomeSpans result, span.InBounds source
  /-- The strict run for the visible tokens. -/
  tokenizeVisible : ∃ result, tokenizeVisible source = .ok result ∧
    ∀ span ∈ outcomeSpans result, span.InBounds source
  /-- Reading on after errors, with whatever the handler holds already. -/
  recover : ∀ handler, ∃ tokens handler' new, recover source handler = .ok (tokens, handler') ∧
    handler'.diagnostics = handler.diagnostics ++ new ∧
    (∀ t ∈ tokens, t.span.InBounds source) ∧ ∀ d ∈ new, d.span.InBounds source

/-- **No fault on a short source**: whatever is done with a source of less than `2 ^ 29` bytes, no
count outgrows its word and every cut is at edges of characters. -/
theorem faultFree_of_byteSize_lt {source : Text} (hsize : Text.byteSize source < 2 ^ 29) :
    FaultFree source := by
  refine ⟨?_, ?_, ?_, ?_⟩
  · intro file acts
    have hstart : Lexer.Reachable source file (Feed.lexer (.ofSource source file)).inner := .start
    obtain ⟨rs, g, hsession, hreachable, hgives⟩ := Feed.exists_session hstart hsize acts
    refine ⟨rs, g, hsession, hreachable.inBounds hsize, ?_⟩
    intro r hr span hspan
    exact (hgives r hr span hspan).inBounds hsize
  · obtain ⟨result, hresult, hgives⟩ := gives_of_tokenize source hsize
    exact ⟨result, hresult, fun span hspan => (hgives span hspan).inBounds hsize⟩
  · obtain ⟨result, hresult, hgives⟩ := gives_of_tokenizeVisible source hsize
    exact ⟨result, hresult, fun span hspan => (hgives span hspan).inBounds hsize⟩
  · intro handler
    obtain ⟨ss, hsteps, -⟩ :=
      Recovery.exists_steps (Lexer.stands_ofSource source .unknown) hsize
    have hgives := Recovery.gives_of_steps .start hsteps
    refine ⟨_, _, Recovery.diagnostics ss, recover_of_steps hsteps handler,
      handler.diagnostics_emitAll _, ?_, ?_⟩
    · intro t ht
      obtain ⟨s, hs, htoken⟩ := List.mem_filterMap.mp ht
      exact ((hgives s hs).1 t htoken).inBounds hsize
    · intro d hd
      obtain ⟨s, hs, hdiagnostic⟩ := List.mem_filterMap.mp hd
      exact ((hgives s hs).2 d hdiagnostic).inBounds hsize

/-- Tabs in front of a character of two bytes and of a string that is not closed. -/
theorem faultFree_of_byteSize_lt_tabs :
    Text.byteSize ['\t', '\t', 'é', ')', '"', '\\'] < 2 ^ 29 ∧
      FaultFree ['\t', '\t', 'é', ')', '"', '\\'] := by
  have hsize : Text.byteSize ['\t', '\t', 'é', ')', '"', '\\'] < 2 ^ 29 := by decide
  exact ⟨hsize, faultFree_of_byteSize_lt hsize⟩

end Lexis
