import Mathlib.Computability.Language
import Lexis.Proofs.LogicalLine
import Lexis.Proofs.Lookahead
import Lexis.Proofs.Munch

/-!
# The grammar of layout

Five kinds of layout share a few characters: a form feed is space or a part of a newline, a carriage
return is text of a comment or a part of a line break, and the same space is space inside a line,
indentation or the start of a comment. Which of them it is depends on the column in which it starts,
on the open brackets, and on what follows. Here each kind has a grammar for its words and says in
front of which texts a word of it ends.

* `Grammar.lineBreak`, `Grammar.formBreak`: line breaks, the second with an optional form feed. The
  rules count as many as there are (`Grammar.mem_kstar_of_newlines`,
  `Grammar.mem_kstar_of_lineBreaks`).
* `Layout.Fits`: the words of each kind of layout, with the column and the depth in which they
  start and the texts that follow them.
* `Extent.fits`: what a rule for layout reads is such a word.
* `layout_of_tokenize`: the layout tokens of a source are such words.
-/

namespace Lexis

open scoped Computability

namespace Grammar

open Rule

/-! ## Line breaks -/

/-- A line break. -/
def lineBreak : Language Char := (1 + {['\r']}) * {['\n']}

/-- A line break, with or without a form feed in front. -/
def formBreak : Language Char := (1 + {['\x0c']}) * lineBreak

theorem mem_lineBreak {w : Text} : w ∈ lineBreak ↔ w = ['\n'] ∨ w = ['\r', '\n'] := by
  constructor
  · rintro ⟨_, rfl | rfl, _, rfl, rfl⟩
    · exact .inl rfl
    · exact .inr rfl
  · rintro (rfl | rfl)
    · exact ⟨[], .inl rfl, ['\n'], rfl, rfl⟩
    · exact ⟨['\r'], .inr rfl, ['\n'], rfl, rfl⟩

theorem mem_formBreak {w : Text} : w ∈ formBreak ↔ w ∈ newlineStarts := by
  simp only [newlineStarts, List.mem_cons, List.not_mem_nil, or_false]
  constructor
  · rintro ⟨front, hfront, feed, hfeed, rfl⟩
    rcases hfront with rfl | rfl <;> rcases mem_lineBreak.mp hfeed with rfl | rfl <;> simp
  · rintro (rfl | rfl | rfl | rfl)
    · exact ⟨[], .inl rfl, _, mem_lineBreak.mpr (.inl rfl), rfl⟩
    · exact ⟨[], .inl rfl, _, mem_lineBreak.mpr (.inr rfl), rfl⟩
    · exact ⟨['\x0c'], .inr rfl, _, mem_lineBreak.mpr (.inl rfl), rfl⟩
    · exact ⟨['\x0c'], .inr rfl, _, mem_lineBreak.mpr (.inr rfl), rfl⟩

theorem starts_lineBreak_iff {t : Text} : Starts lineBreak t ↔ 0 < lineBreaks t := by
  simp [Starts, mem_lineBreak, lineBreaks_pos_iff]

theorem starts_formBreak_iff {t : Text} : Starts formBreak t ↔ 0 < newlines t := by
  simp [Starts, mem_formBreak, newlines_pos_iff]

/-! ## Runs of line breaks -/

section

variable {L : Language Char}

/-- A word in front of a run of words makes a longer run. -/
theorem append_mem_kstar {v w : Text} (hv : v ∈ L) (hw : w ∈ L∗) : v ++ w ∈ L∗ :=
  mul_kstar_le_kstar (a := L) (Language.append_mem_mul hv hw)

/-- A run that is not empty has a first word. -/
theorem mem_mul_kstar {w : Text} (h : w ∈ L∗) (hne : w ≠ []) : w ∈ L * L∗ := by
  rw [← Language.one_add_self_mul_kstar_eq_kstar] at h
  exact h.resolve_left hne

end

theorem take_newlines_mem (t : Text) : t.take (newlines t) ∈ formBreak∗ := by
  fun_induction newlines t with
  | case1 t ih => exact append_mem_kstar (v := ['\n']) (mem_formBreak.mpr (by decide)) ih
  | case2 t ih => exact append_mem_kstar (v := ['\r', '\n']) (mem_formBreak.mpr (by decide)) ih
  | case3 t ih => exact append_mem_kstar (v := ['\x0c', '\n']) (mem_formBreak.mpr (by decide)) ih
  | case4 t ih =>
    exact append_mem_kstar (v := ['\x0c', '\r', '\n']) (mem_formBreak.mpr (by decide)) ih
  | case5 t => exact Language.nil_mem_kstar _

theorem take_lineBreaks_mem (t : Text) : t.take (lineBreaks t) ∈ lineBreak∗ := by
  fun_induction lineBreaks t with
  | case1 t ih => exact append_mem_kstar (v := ['\n']) (mem_lineBreak.mpr (.inl rfl)) ih
  | case2 t ih => exact append_mem_kstar (v := ['\r', '\n']) (mem_lineBreak.mpr (.inr rfl)) ih
  | case3 t => exact Language.nil_mem_kstar _

variable {front rest : Text}

/-- **A newline is a run of line breaks**, and as long as it can be. -/
theorem newlines_fit (h : newlines (front ++ rest) = front.length) :
    front ∈ formBreak∗ ∧ ¬ Starts formBreak rest := by
  have hmem := take_newlines_mem (front ++ rest)
  rw [h, List.take_left] at hmem
  rw [starts_formBreak_iff, runs_newlines.eq_zero h]
  exact ⟨hmem, Nat.lt_irrefl 0⟩

/-- **So are the line breaks behind other layout.** -/
theorem lineBreaks_fit (h : lineBreaks (front ++ rest) = front.length) :
    front ∈ lineBreak∗ ∧ ¬ Starts lineBreak rest := by
  have hmem := take_lineBreaks_mem (front ++ rest)
  rw [h, List.take_left] at hmem
  rw [starts_lineBreak_iff, runs_lineBreaks.eq_zero h]
  exact ⟨hmem, Nat.lt_irrefl 0⟩

/-- The text of a comment goes up to the end of its line. -/
theorem lineLength_fit (h : lineLength (front ++ rest) = front.length) :
    front ∈ many (· ≠ '\n') ∧ (rest = [] ∨ Starts lineBreak rest) := by
  refine ⟨fun c hc => ?_, ?_⟩
  · have hne : c ≠ '\n' := fun heq => not_mem_of_lineLength h (heq ▸ hc)
    simpa using hne
  · rw [starts_lineBreak_iff, ← lineLength_eq_zero_iff]
    exact lineLength_rest_eq_zero h

theorem not_starts_one_iff {p : Char → Bool} {t : Text} :
    ¬ Starts (one p) t ↔ t.head?.any p = false := by
  rw [starts_one_iff, Bool.not_eq_true]

/-! ## Words of layout -/

/-- The hash sign and the text of a comment. -/
def commentText : Language Char := {['#']} * many (· ≠ '\n')

/-- A backslash, a line break and the space that starts the next line. -/
def continuation : Language Char := {['\\']} * lineBreak * many isIndent

theorem cons_mem_commentText {text : Text} (h : text ∈ many (· ≠ '\n')) :
    '#' :: text ∈ commentText :=
  Language.append_mem_mul (Set.mem_singleton ['#']) h

end Grammar

/-! ## The rules of layout -/

open Grammar

/-- The word `w` fits the rule of its kind of layout, where it starts in column `column` behind
`depth` open brackets and is followed by the text `r`. -/
inductive Layout.Fits (column depth : Nat) (r : Text) : Text → Layout → Prop
  /-- A newline is a run of line breaks and form feeds in front of them, with no other behind. -/
  | newline {w : Text} (hword : w ∈ formBreak * formBreak∗) (hend : ¬ Starts formBreak r) :
      Fits column depth r w .newline
  /-- A continuation takes all the space that starts the next line. -/
  | continuation {w : Text} (hword : w ∈ Grammar.continuation)
      (hend : ¬ Starts (one isIndent) r) : Fits column depth r w .continuation
  /-- A comment behind something on its line ends in front of the line break. -/
  | comment {w : Text} (hcolumn : 0 < column) (hword : w ∈ commentText)
      (hend : r = [] ∨ Starts lineBreak r) : Fits column depth r w .comment
  /-- A comment that starts a line has the space in front and the line breaks behind it. Only the
  end of the input can stand in place of the line breaks. -/
  | lineComment {front breaks : Text} (hcolumn : column = 0)
      (hfront : front ∈ many isIndent * commentText) (hbreaks : breaks ∈ lineBreak∗)
      (hend : ¬ Starts lineBreak r) (hnil : breaks = [] → r = []) :
      Fits column depth r (front ++ breaks) .comment
  /-- Space that starts a line outside brackets is indentation, with the line breaks behind it. If
  there are none, all of the space is taken, and no comment follows. -/
  | indentation {space breaks : Text} (hcolumn : column = 0) (hdepth : depth = 0)
      (hspace : space ∈ many1 isIndent) (hbreaks : breaks ∈ lineBreak∗)
      (hend : ¬ Starts lineBreak r)
      (hnil : breaks = [] → ¬ Starts (one fun c => isIndent c || c = '#') r) :
      Fits column depth r (space ++ breaks) .indentation
  /-- Space elsewhere on a line may hold form feeds, and starts with one if it starts the line. A
  single form feed in front of a line break is no space. -/
  | blank {w : Text} (hplace : 0 < column ∨ ['\x0c'] <+: w) (hword : w ∈ many1 isBlank)
      (hend : ¬ Starts (one isBlank) r) (hfeed : w = ['\x0c'] → ¬ Starts lineBreak r) :
      Fits column depth r w .blank
  /-- Space that starts a line in brackets, with no comment behind it. -/
  | lineBlank {w : Text} (hcolumn : column = 0) (hdepth : 0 < depth) (hword : w ∈ many1 isIndent)
      (hend : ¬ Starts (one fun c => isIndent c || c = '#') r) : Fits column depth r w .blank

/-- A text that starts with neither of two classes starts with none of their characters. -/
theorem not_starts_or {t : Text} {p q : Char → Bool} (hp : t.head?.any p = false)
    (hq : t.head?.any q = false) : ¬ Starts (one fun c => p c || q c) t := by
  rw [not_starts_one_iff]
  cases t with
  | nil => rfl
  | cons c t => simp_all

/-- The kind of an accepted lexeme is the one it was accepted with. -/
theorem layout_eq_of_ok {lexeme : Lexeme} {kind k : Layout} {visible : Bool} {text : Text}
    (hlexeme : (.ok ⟨.layout k, visible, text⟩ : Except Cause Lexeme) = .ok lexeme)
    (hkind : lexeme.kind = .layout kind) : k = kind := by
  obtain rfl := Except.ok.inj hlexeme
  exact Kind.layout.inj hkind

/-- **What a rule for layout reads fits the rule of its kind.** -/
theorem Extent.fits {s : Surroundings} {front rest : Text} {r : Scan} {lexeme : Lexeme}
    (h : Extent s front rest r) (hlexeme : r.result = .ok lexeme) {kind : Layout}
    (hkind : lexeme.kind = .layout kind) {column depth : Nat}
    (hcolumn : s.lineStart = true ↔ column = 0) (hdepth : s.inBrackets = true ↔ 0 < depth) :
    kind.Fits column depth rest front := by
  have hinside : s.lineStart = false → 0 < column := by
    intro hstart
    simpa [hstart, Nat.pos_iff_ne_zero] using hcolumn
  cases h with
  | newline hne hbreak =>
    obtain rfl := layout_eq_of_ok hlexeme hkind
    obtain ⟨hrun, hend⟩ := newlines_fit hbreak
    exact .newline (mem_mul_kstar hrun hne) hend
  | blank hne hspace hend hbreak hindent =>
    obtain rfl := layout_eq_of_ok hlexeme hkind
    refine .blank ?_ ⟨hne, hspace⟩ (not_starts_one_iff.mpr hend) ?_
    · cases hstart : s.lineStart with
      | false => exact .inl (hinside hstart)
      | true =>
        obtain ⟨c, space, rfl⟩ := List.exists_cons_of_ne_nil hne
        obtain rfl := Rule.eq_formFeed (hspace c List.mem_cons_self) (by simpa using hindent hstart)
        exact .inr (by simp)
    · rintro rfl hstarts
      obtain ⟨w, hw, hprefix⟩ := hstarts
      have hpos : Starts formBreak ('\x0c' :: rest) :=
        ⟨'\x0c' :: w, Language.append_mem_mul (a := ['\x0c']) (.inr rfl) hw, by simpa using hprefix⟩
      rw [starts_formBreak_iff] at hpos
      exact Nat.ne_of_gt hpos hbreak
  | bracketed hstart hbrackets hne hspace hend hhash =>
    obtain rfl := layout_eq_of_ok hlexeme hkind
    exact .lineBlank (hcolumn.mp hstart) (hdepth.mp hbrackets) ⟨hne, hspace⟩
      (not_starts_or hend hhash)
  | indentation hstart hbrackets hne hspace hend hhash hbreaks =>
    obtain rfl := layout_eq_of_ok hlexeme hkind
    obtain ⟨hrun, hbreak⟩ := lineBreaks_fit hbreaks
    refine .indentation (hcolumn.mp hstart) ?_ ⟨hne, hspace⟩ hrun hbreak ?_
    · simpa [hbrackets] using hdepth
    · rintro rfl
      exact not_starts_or hend hhash
  | lineComment hstart hspace htext hbreaks =>
    obtain rfl := layout_eq_of_ok hlexeme hkind
    obtain ⟨hrun, hbreak⟩ := lineBreaks_fit hbreaks
    obtain ⟨hline, hstop⟩ := lineLength_fit htext
    rw [← List.cons_append, ← List.append_assoc]
    refine .lineComment (hcolumn.mp hstart)
      (Language.append_mem_mul hspace (cons_mem_commentText hline)) hrun hbreak ?_
    rintro rfl
    exact hstop.resolve_right hbreak
  | comment hstart htext =>
    obtain rfl := layout_eq_of_ok hlexeme hkind
    obtain ⟨hline, hstop⟩ := lineLength_fit htext
    exact .comment (hinside hstart) (cons_mem_commentText hline) hstop
  | continuation hfeed hspace hend =>
    obtain rfl := layout_eq_of_ok hlexeme hkind
    refine .continuation ?_ (not_starts_one_iff.mpr hend)
    rw [← List.cons_append]
    exact Language.append_mem_mul
      (Language.append_mem_mul (Set.mem_singleton ['\\']) (mem_lineBreak.mpr hfeed)) hspace
  | code hcode hread hlex =>
    have hcode := (hcode.endsInline lexeme hlexeme).1
    rw [hkind] at hcode
    contradiction

/-! ## The layout of a source -/

/-- A lexer that has passed some tokens gives layout that fits its rule. -/
theorem Lexer.Passed.fits {source before : Text} {past : List Token} {l : Lexer} {u : Turn}
    {t : Token} (h : l.Passed source before past) (hnext : l.next = .ok u) (ht : u.reply = .ok t)
    {kind : Layout} (hkind : t.kind = .layout kind) :
    ∃ r, Text.dropBytes? source t.span.stop = some r ∧
      kind.Fits t.span.column (Token.depth past) r (t.sourceText source) := by
  have heof : t.isEof = false := by
    rw [Token.isEof, hkind]
    rfl
  obtain ⟨front, rest, htakes⟩ := exists_takes_of_next hnext ht heof
  obtain ⟨hspans, hstands⟩ := htakes.spans h.stands ht
  have hsource : before ++ front ++ rest = source := by
    rw [← hstands.append_rest, htakes.append_eq.2]
  have hdepth : l.surroundings.inBrackets = true ↔ 0 < Token.depth past := by
    rw [← h.follows.counts.depth_eq]
    exact decide_eq_true_iff
  refine ⟨rest, ?_, ?_⟩
  · rw [← hsource, hspans.stop_eq, Text.dropBytes?_append]
  · rw [← hsource, hspans.sourceText_eq]
    cases htakes with
    | lexeme _ hextent hlexeme =>
      obtain rfl := Except.ok.inj ht
      exact hextent.fits hlexeme hkind h.reachable.atLineStart_iff hdepth

/-- **Layout tokens fit their rules**: each is a word of its kind for the column in which it starts
and the brackets that the tokens in front of it leave open, and is followed by a text in front of
which such a word ends. -/
theorem layout_of_tokenize {source : Text} {tokens : List Token}
    (h : tokenize source = .ok (.ok tokens)) {i : Nat} (hi : i < tokens.length) {kind : Layout}
    (hkind : tokens[i].kind = .layout kind) :
    ∃ r, Text.dropBytes? source tokens[i].span.stop = some r ∧
      kind.Fits tokens[i].span.column (Token.depth (tokens.take i)) r
        (tokens[i].sourceText source) := by
  obtain ⟨k, u, hrun, hnext, hreply⟩ := exists_run_take_of_tokenize h hi
  obtain ⟨before, hpassed⟩ := (Lexer.passed_ofSource source).run hrun
  rw [List.nil_append] at hpassed
  exact hpassed.fits hnext hreply hkind

/-- In brackets the tab that starts a line is space. -/
theorem layout_of_tokenize_in_brackets :
    ∃ tokens, tokenize ['(', '\n', '\t', '1', '#', 'x'] = .ok (.ok tokens) ∧
      ∃ hi : 2 < tokens.length, tokens[2].kind = .layout .blank ∧
        ∃ r, Text.dropBytes? ['(', '\n', '\t', '1', '#', 'x'] tokens[2].span.stop = some r ∧
          Layout.blank.Fits tokens[2].span.column (Token.depth (tokens.take 2)) r
            (tokens[2].sourceText ['(', '\n', '\t', '1', '#', 'x']) := by
  have h : tokenize ['(', '\n', '\t', '1', '#', 'x'] = .ok (.ok [
      ⟨.symbol .leftParen, ['('], ⟨0, 1, 1, 0, ⟨0⟩⟩, true⟩,
      ⟨.layout .newline, ['\n'], ⟨1, 2, 1, 1, ⟨0⟩⟩, false⟩,
      ⟨.layout .blank, ['\t'], ⟨2, 3, 2, 0, ⟨0⟩⟩, false⟩,
      ⟨.literal .int, ['1'], ⟨3, 4, 2, 1, ⟨0⟩⟩, true⟩,
      ⟨.layout .comment, ['#', 'x'], ⟨4, 6, 2, 2, ⟨0⟩⟩, false⟩,
      ⟨.eof, [], ⟨6, 6, 2, 4, ⟨0⟩⟩, true⟩]) := by decide +kernel
  exact ⟨_, h, by decide, rfl, layout_of_tokenize h (by decide) rfl⟩

end Lexis
