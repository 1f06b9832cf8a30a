import Lexis.Proofs.BlankLine

/-!
# The indentation of a line of code

A parser reads the blocks of a program off its indentation. Each indented line of code has one token
of indentation, which starts where the line does and whose text is as many spaces as the indentation
is wide, whatever lines without code are in front.

* `groupsWidth`, `Line.indent`: the width of indentation that is written as groups of spaces with
  tabs in between. `indentWidth_eq` says that counting columns along gives the same.
* `LineTable.eq_of_start_eq`: a line of a source is determined by its start.
* `start_lt_start_of_tokenize`: the tokens of a source start one behind the other.
* `exists_line_of_indentation`: what every token of indentation is.
* `indentation_of_tokenize`: the indentation of the first code behind a newline.
-/

namespace Lexis

/-! ## The width of indentation -/

/-- The width of indentation that is written as groups of so many spaces, with a tab behind each but
the last. A tab goes to the first tab stop behind its group. -/
def groupsWidth : List Nat → Nat
  | [] => 0
  | [k] => k
  | k :: ks => tabWidth * (k / tabWidth + 1) + groupsWidth ks

theorem groupsWidth_cons (k : Nat) {ks : List Nat} (h : ks ≠ []) :
    groupsWidth (k :: ks) = tabWidth * (k / tabWidth + 1) + groupsWidth ks := by
  cases ks with
  | nil => contradiction
  | cons j ks => rfl

/-- The lengths of the groups of spaces between the tabs. -/
def tabGroups (t : Text) : List Nat := (t.splitOn '\t').map List.length

theorem tabGroups_ne_nil (t : Text) : tabGroups t ≠ [] := by
  unfold tabGroups
  simp [List.splitOn_ne_nil]

theorem tabGroups_tab (t : Text) : tabGroups ('\t' :: t) = 0 :: tabGroups t := by
  simp [tabGroups, List.splitOn, List.splitOnP_cons_eq_if_modifyHead]

theorem tabGroups_cons {c : Char} (t : Text) (h : c ≠ '\t') :
    tabGroups (c :: t) = (tabGroups t).modifyHead (· + 1) := by
  obtain ⟨g, gs, hgroups⟩ := List.exists_cons_of_ne_nil (List.splitOn_ne_nil '\t' t)
  unfold tabGroups
  rw [hgroups]
  unfold List.splitOn at hgroups ⊢
  simp [List.splitOnP_cons_eq_if_modifyHead, h, hgroups]

/-- Counting from `k` columns behind a tab stop adds them to the first group. -/
theorem foldl_indentStep_eq (t : Text) (q k : Nat) :
    t.foldl indentStep (tabWidth * q + k) =
      tabWidth * q + groupsWidth ((tabGroups t).modifyHead (· + k)) := by
  induction t generalizing q k with
  | nil => simp [tabGroups, groupsWidth]
  | cons c t ih =>
    obtain ⟨g, gs, hgroups⟩ := List.exists_cons_of_ne_nil (tabGroups_ne_nil t)
    by_cases hc : c = '\t'
    · subst hc
      have hstop : indentStep (tabWidth * q + k) '\t' =
          tabWidth * (q + (k / tabWidth + 1)) + 0 := by
        simp only [indentStep, tabWidth, if_true]
        omega
      rw [List.foldl_cons, hstop, ih, tabGroups_tab, List.modifyHead_cons, Nat.zero_add,
        groupsWidth_cons k (tabGroups_ne_nil t), Nat.mul_add, hgroups]
      simp only [List.modifyHead_cons, Nat.add_zero]
      omega
    · have hnext : indentStep (tabWidth * q + k) c = tabWidth * q + (k + 1) := by
        simp [indentStep, hc, Nat.add_assoc]
      rw [List.foldl_cons, hnext, ih, tabGroups_cons t hc, hgroups]
      simp only [List.modifyHead_cons, Nat.add_assoc, Nat.add_comm 1 k]

/-- **Counting columns along** indentation gives the width of its groups. -/
theorem indentWidth_eq (t : Text) : indentWidth t = groupsWidth (tabGroups t) := by
  have h := foldl_indentStep_eq t 0 0
  obtain ⟨g, gs, hgroups⟩ := List.exists_cons_of_ne_nil (tabGroups_ne_nil t)
  simpa [indentWidth, hgroups] using h

theorem length_le_foldl_indentStep (t : Text) (column : Nat) :
    column + t.length ≤ t.foldl indentStep column := by
  induction t generalizing column with
  | nil => exact Nat.le_refl _
  | cons c t ih =>
    have hstep := lt_indentStep column c
    have hrest := ih (indentStep column c)
    rw [List.foldl_cons, List.length_cons]
    omega

theorem indentWidth_pos_iff (t : Text) : 0 < indentWidth t ↔ t ≠ [] := by
  have hle := length_le_foldl_indentStep t 0
  constructor
  · rintro hpos rfl
    contradiction
  · intro hne
    have hlength := List.length_pos_iff.mpr hne
    unfold indentWidth
    omega

/-- The width of the indentation of a line. -/
def Line.indent (line : Line) : Nat := groupsWidth (tabGroups line.indentation)

theorem Line.indent_eq (line : Line) : line.indent = indentWidth line.indentation :=
  (indentWidth_eq line.indentation).symm

/-! ## Lines and starts -/

/-- Two ways to cut a text at one offset are the same. -/
theorem Text.append_inj_of_byteSize {a b c d : Text} (h : a ++ b = c ++ d)
    (hsize : byteSize a = byteSize c) : a = c ∧ b = d := by
  have hfront := takeBytes?_append a b
  rw [h, hsize, takeBytes?_append] at hfront
  obtain rfl := Option.some.inj hfront
  exact ⟨rfl, List.append_cancel_left h⟩

/-- The line starts behind some front part of the source. -/
def Line.StandsIn (source : Text) (line : Line) : Prop :=
  ∃ front rest, front ++ rest = source ∧ line = ofText (Text.byteSize front) rest

theorem Line.standsIn_of_mem_behindBreaks (front : Text) {t : Text} {line : Line}
    (h : line ∈ behindBreaks (Text.byteSize front) t) : line.StandsIn (front ++ t) := by
  induction t generalizing front with
  | nil => contradiction
  | cons c t ih =>
    have hsize : Text.byteSize front + c.utf8Size = Text.byteSize (front ++ [c]) := by
      rw [Text.byteSize_append, Text.byteSize_cons]
      rfl
    rw [behindBreaks, hsize] at h
    rw [List.append_cons]
    split at h
    · rcases List.mem_cons.mp h with rfl | hmem
      · exact ⟨front ++ [c], t, rfl, rfl⟩
      · exact ih (front ++ [c]) hmem
    · exact ih (front ++ [c]) h

theorem LineTable.standsIn_of_line? {source : Text} {n : Nat} {line : Line}
    (h : (ofText source).line? n = some line) : line.StandsIn source := by
  cases n with
  | zero =>
    rw [line?_ofText_zero] at h
    exact ⟨[], source, rfl, (Option.some.inj h).symm⟩
  | succ n =>
    have hline : (Line.behindBreaks 0 source)[n]? = some line := by
      simpa [line?, ofText] using h
    exact Line.standsIn_of_mem_behindBreaks [] (List.mem_of_getElem? hline)

/-- **A line of a source is determined by its start.** -/
theorem LineTable.eq_of_start_eq {source : Text} {m n : Nat} {a b : Line}
    (ha : (ofText source).line? m = some a) (hb : (ofText source).line? n = some b)
    (h : a.start = b.start) : a = b := by
  obtain ⟨front, rest, hfront, rfl⟩ := standsIn_of_line? ha
  obtain ⟨front', rest', hfront', rfl⟩ := standsIn_of_line? hb
  obtain ⟨rfl, rfl⟩ := Text.append_inj_of_byteSize (hfront.trans hfront'.symm) h
  rfl

/-! ## Tokens and starts -/

/-- **The tokens of a source start one behind the other.** -/
theorem start_lt_start_of_tokenize {source : Text} {tokens : List Token}
    (h : tokenize source = .ok (.ok tokens)) {i j : Nat} (hi : i < tokens.length)
    (hj : j < tokens.length) (hij : i < j) : tokens[i].span.start < tokens[j].span.start := by
  obtain ⟨l, u, hrun, hnext, hreply⟩ := exists_run_take_of_tokenize h hj
  have hstart := Lexer.stands_ofSource source .unknown
  have hmem : tokens[i] ∈ tokens.take j := by
    rw [take_eq_append_cons hij hj]
    exact List.mem_append_right _ List.mem_cons_self
  obtain ⟨-, front, taken, rest, hne, hspans, -⟩ := hrun.exists_spans hstart hmem
  have hlt := hspans.start_lt_stop hne
  obtain ⟨-, -, hle⟩ := (hrun.tiles hstart).bounds_of_mem (List.mem_map_of_mem hmem)
  have hspan : tokens[j].span.start = l.mark.offset := by
    obtain ⟨stop, hspan⟩ := Lexer.replySpan_of_next hnext
    rw [hreply] at hspan
    exact congrArg Span.start hspan
  rw [hspan]
  exact Nat.lt_of_lt_of_le hlt hle

/-- A token of a source is determined by its start. -/
theorem index_eq_of_start_eq {source : Text} {tokens : List Token}
    (h : tokenize source = .ok (.ok tokens)) {i j : Nat} (hi : i < tokens.length)
    (hj : j < tokens.length) (hstart : tokens[i].span.start = tokens[j].span.start) : i = j := by
  rcases Nat.lt_trichotomy i j with hlt | heq | hlt
  · have hfirst := start_lt_start_of_tokenize h hi hj hlt
    omega
  · exact heq
  · have hsecond := start_lt_start_of_tokenize h hj hi hlt
    omega

/-! ## Tokens of indentation -/

/-- Indentation is the space at the start of a line, and reads as spaces of the same width. -/
theorem Lexeme.Lays.of_indentation {s : Surroundings} {r : Reading} {lexeme : Lexeme}
    (h : lexeme.Lays s r) (hkind : lexeme.kind = .layout .indentation) :
    s.lineStart = true ∧ r.whole.takeWhile isIndent ≠ [] ∧
      lexeme.text = List.replicate (indentWidth (r.whole.takeWhile isIndent)) ' ' := by
  cases h with
  | indentation _ _ hstart _ hne _ htext => exact ⟨hstart, hne, htext⟩
  | _ => simp_all [Kind.isLayout]

/-- **Every token of indentation** starts where its line does, and is as many spaces as the
indentation of the line is wide. -/
theorem exists_line_of_indentation {source : Text} {tokens : List Token}
    (h : tokenize source = .ok (.ok tokens)) {i : Nat} (hi : i < tokens.length)
    (hkind : tokens[i].kind = .layout .indentation) :
    ∃ line, (LineTable.ofText source).line? (tokens[i].span.line - 1) = some line ∧
      tokens[i].span.start = line.start ∧ line.indentation ≠ [] ∧
      tokens[i].text = List.replicate line.indent ' ' := by
  obtain ⟨l, u, hrun, hnext, hreply⟩ := exists_run_take_of_tokenize h hi
  obtain ⟨before, hpassed⟩ := (Lexer.passed_ofSource source).run hrun
  have heof : tokens[i].isEof = false := by simp [Token.isEof, hkind]
  obtain ⟨r, hwhole, -, -, hlays, -, -⟩ := hpassed.token hnext hreply heof
  obtain ⟨hstart, hne, htext⟩ := hlays.of_indentation hkind
  rw [hwhole] at hne htext
  have hnil := hpassed.lineStart_iff.mp hstart
  have hline := hpassed.line?_eq hnext hreply
  rw [hnil, List.nil_append, Text.fullLines_eq_self hnil] at hline
  refine ⟨_, hline, hpassed.start_eq hnext hreply, ?_, ?_⟩
  · rwa [Line.indentation_ofText]
  · rwa [Line.indent_eq, Line.indentation_ofText]

/-- A line of code that is indented has a token of indentation. -/
theorem Lexer.Passed.exists_indentation {source before : Text} {past : List Token} {l : Lexer}
    {u : Turn} {t : Token} (h : l.Passed source before past) (hbare : Bare past before l.rest)
    (hnext : l.next = .ok u) (ht : u.reply = .ok t) (heof : t.isEof = false)
    (hvisible : t.visible = true) (hkind : t.kind ≠ .layout .newline)
    (hindent : (Text.lastLine before ++ l.rest).takeWhile isIndent ≠ []) :
    ∃ s ∈ past, s.kind = .layout .indentation ∧
      s.span.start = Text.byteSize (Text.fullLines before) := by
  obtain ⟨r, hwhole, hne, -, hlays, -, -⟩ := h.token hnext ht heof
  rw [visible_of_next hnext ht] at hvisible
  obtain ⟨hhead, -⟩ := hlays.of_not_layout (Kind.isLayout_eq_false_of_visibleIf hvisible hkind)
  rw [hwhole] at hhead
  by_cases hline : Text.lastLine before = []
  · -- the code stands at the start of the line, so there is no indentation
    rw [hline, List.nil_append] at hindent
    cases hrest : l.rest with
    | nil => simp [hrest] at hindent
    | cons c rest =>
      rw [hrest] at hhead hindent
      have hc : isIndent c = false := by
        rw [← Bool.not_eq_true]
        intro hc
        simp [Rule.isBlank_of_isIndent hc] at hhead
      simp [hc] at hindent
  · have hrest : l.rest ≠ [] := by
      rw [← hwhole]
      exact List.append_ne_nil_of_left_ne_nil hne _
    exact (hbare.opened_of_ne_nil hline hrest).indentation hindent

/-- **The parser gets the right indentation**: where the first code behind a newline, or of a
source, is outside brackets and behind no continuation, its line is indented exactly if a token of
indentation starts with the line. That token is the only one on the line, and its text is as many
spaces as the indentation is wide. -/
theorem indentation_of_tokenize {source : Text} {tokens : List Token}
    (h : tokenize source = .ok (.ok tokens)) {i : Nat} (hi : i < tokens.length)
    (hvisible : tokens[i].visible = true) (hkind : tokens[i].kind ≠ .layout .newline)
    (heof : tokens[i].isEof = false)
    (hlast : ∀ t ∈ Token.lastVisible? (tokens.take i), t.kind = .layout .newline)
    (htail : ∀ t ∈ Token.hiddenTail (tokens.take i), t.kind ≠ .layout .continuation)
    (hdepth : Token.depth (tokens.take i) = 0) :
    ∃ line, (LineTable.ofText source).line? (tokens[i].span.line - 1) = some line ∧
      (0 < line.indent ↔
        ∃ t ∈ tokens, t.kind = .layout .indentation ∧ t.span.start = line.start) ∧
      ∀ j (hj : j < tokens.length), tokens[j].kind = .layout .indentation →
        tokens[j].span.start = line.start →
        tokens[j].text = List.replicate line.indent ' ' ∧
          ∀ k (hk : k < tokens.length), tokens[k].kind = .layout .indentation →
            tokens[k].span.line = tokens[i].span.line → k = j := by
  obtain ⟨l, u, before, hnext, ht, hpassed, hbare⟩ :=
    exists_bare_of_tokenize h hi hlast htail hdepth
  have hline := hpassed.line?_eq hnext ht
  refine ⟨_, hline, ⟨?_, ?_⟩, ?_⟩
  · rw [Line.indent_eq, indentWidth_pos_iff, Line.indentation_ofText]
    intro hindent
    obtain ⟨t, hmem, ht⟩ :=
      hpassed.exists_indentation hbare hnext ht heof hvisible hkind hindent
    exact ⟨t, List.mem_of_mem_take hmem, ht⟩
  · rintro ⟨t, hmem, hindent, hstart⟩
    obtain ⟨j, hj, rfl⟩ := List.getElem_of_mem hmem
    obtain ⟨line, hline', hstart', hne, -⟩ := exists_line_of_indentation h hj hindent
    obtain rfl := LineTable.eq_of_start_eq hline hline' (hstart.symm.trans hstart')
    rwa [Line.indent_eq, indentWidth_pos_iff]
  · intro j hj hindent hstart
    obtain ⟨line, hline', hstart', -, htext⟩ := exists_line_of_indentation h hj hindent
    obtain rfl := LineTable.eq_of_start_eq hline hline' (hstart.symm.trans hstart')
    refine ⟨htext, fun k hk hindent' hnumber => ?_⟩
    obtain ⟨other, hother, hstart'', -, -⟩ := exists_line_of_indentation h hk hindent'
    rw [hnumber, hline] at hother
    obtain rfl := Option.some.inj hother
    exact index_eq_of_start_eq h hk hj (hstart''.trans hstart'.symm)

/-- A blank line with indentation of its own and a comment in front of a line that is indented by
one space, a tab and another space: its indentation is nine spaces. -/
theorem indentation_of_tokenize_mixed :
    ∃ tokens, tokenize ['x', '\n', ' ', '\n', '#', '\n', ' ', '\t', ' ', 'y'] = .ok (.ok tokens) ∧
      ∃ line, (LineTable.ofText
        ['x', '\n', ' ', '\n', '#', '\n', ' ', '\t', ' ', 'y']).line? 3 = some line ∧
      line.indent = 9 ∧
      (0 < line.indent ↔
        ∃ t ∈ tokens, t.kind = .layout .indentation ∧ t.span.start = line.start) ∧
      ∀ j (hj : j < tokens.length), tokens[j].kind = .layout .indentation →
        tokens[j].span.start = line.start →
        tokens[j].text = List.replicate line.indent ' ' ∧
          ∀ k (hk : k < tokens.length), tokens[k].kind = .layout .indentation →
            tokens[k].span.line = 4 → k = j := by
  have h : tokenize ['x', '\n', ' ', '\n', '#', '\n', ' ', '\t', ' ', 'y'] = .ok (.ok [
      ⟨.name, ['x'], ⟨0, 1, 1, 0, ⟨0⟩⟩, true⟩,
      ⟨.layout .newline, ['\n'], ⟨1, 2, 1, 1, ⟨0⟩⟩, true⟩,
      ⟨.layout .indentation, [' '], ⟨2, 4, 2, 0, ⟨0⟩⟩, false⟩,
      ⟨.layout .comment, ['#', '\n'], ⟨4, 6, 3, 0, ⟨0⟩⟩, false⟩,
      ⟨.layout .indentation, List.replicate 9 ' ', ⟨6, 9, 4, 0, ⟨0⟩⟩, false⟩,
      ⟨.name, ['y'], ⟨9, 10, 4, 3, ⟨0⟩⟩, true⟩,
      ⟨.eof, [], ⟨10, 10, 4, 4, ⟨0⟩⟩, true⟩]) := by decide +kernel
  obtain ⟨line, hline, hindent, htext⟩ := indentation_of_tokenize h (i := 5) (by decide) rfl
    (by decide) rfl (by decide) (by decide) rfl
  obtain rfl := Option.some.inj hline
  exact ⟨_, h, _, rfl, rfl, hindent, htext⟩

end Lexis
