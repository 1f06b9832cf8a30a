import Lexis.Proofs.Indentation
import Lexis.Proofs.Lookahead
import Lexis.Proofs.Restart
import Lexis.Proofs.View

/-!
# Lines with nothing but a comment

A parser does not see a comment line: put in at the start of any line, inside brackets or outside,
it changes nothing of the visible tokens but their places. The tokens in front of it stay what they
are, since the line feed that they end with is followed by no newline. The comment takes the line
breaks behind it along, which would have been a part of a hidden newline, so both runs pass hidden
tokens only until they stand in front of the same text.

* `Extent.onto_of_feed`: layout up to a line feed is read in front of another text as before.
* `Lexer.Run.onto`: a run up to the start of a line is the same in front of a comment.
* `Lexer.StartsLine`: a lexer at the start of a line. Hidden layout that ends with a line feed takes
  it to another (`Lexer.StartsLine.exists_run`).
* `Lexer.Ahead.map_tokens_turns`: a lexer that is ahead of another gives the same tokens, further
  on.
* `tokenizeVisible_commentLine`: comment lines are transparent.
-/

namespace Lexis

/-! ## Line breaks -/

namespace Rule

theorem lineBreaks_eq_zero_of_newlines {t : Text} (h : newlines t = 0) : lineBreaks t = 0 := by
  refine Nat.eq_zero_of_not_pos fun hpos => ?_
  have hnewline : 0 < newlines t := by
    rw [lineBreaks_pos_iff] at hpos
    rw [newlines_pos_iff]
    exact hpos.elim (fun hx => ⟨_, by decide, hx⟩) (fun hx => ⟨_, by decide, hx⟩)
  omega

/-- Line breaks are the front of a newline. -/
theorem newlines_append_of_lineBreaks {breaks rest : Text}
    (h : lineBreaks (breaks ++ rest) = breaks.length) :
    newlines (breaks ++ rest) = breaks.length + newlines rest := by
  have happend : ∀ t, newlines (t.take (lineBreaks t) ++ rest) = lineBreaks t + newlines rest := by
    intro t
    fun_induction lineBreaks t with
    | case1 t ih => simp [newlines, ih, Nat.add_right_comm]
    | case2 t ih => simp [newlines, ih, Nat.add_right_comm]
    | case3 t => simp
  have := happend (breaks ++ rest)
  rwa [h, List.take_left] at this

/-- A text has one first line feed. -/
theorem eq_of_first_feed {a b y z : Text} (ha : '\n' ∉ a) (hb : '\n' ∉ b)
    (h : a ++ '\n' :: y = b ++ '\n' :: z) : a = b ∧ y = z := by
  induction a generalizing b with
  | nil =>
    cases b with
    | nil => exact ⟨rfl, (List.cons.inj h).2⟩
    | cons d b => exact absurd ((List.cons.inj h).1 ▸ List.mem_cons_self) hb
  | cons c a ih =>
    cases b with
    | nil => exact absurd ((List.cons.inj h).1 ▸ List.mem_cons_self) ha
    | cons d b =>
      obtain ⟨rfl, htail⟩ := List.cons.inj h
      obtain ⟨rfl, rfl⟩ := ih (fun hmem => ha (List.mem_cons_of_mem _ hmem))
        (fun hmem => hb (List.mem_cons_of_mem _ hmem)) htail
      exact ⟨rfl, rfl⟩

/-- The line break behind a text without a line feed takes a carriage return at its end. -/
theorem exists_feed {c : Text} (h : '\n' ∉ c) (rest : Text) :
    ∃ text feed, c ++ ['\n'] = text ++ feed ∧ (feed = ['\n'] ∨ feed = ['\r', '\n']) ∧
      lineLength (text ++ (feed ++ rest)) = text.length := by
  obtain ⟨text, behind, heq, hlength⟩ :=
    Text.exists_append_of_le (lineLength_le_length (c ++ '\n' :: rest))
  rw [heq] at hlength
  have htext := not_mem_of_lineLength hlength
  have hbehind : behind ≠ [] := by
    rintro rfl
    rw [List.append_nil] at heq
    exact htext (heq ▸ by simp)
  have hbreak := ((lineLength_eq_zero_iff behind).mp (lineLength_rest_eq_zero hlength)).resolve_left
    hbehind
  -- the line feed behind `c` is the first one
  rcases (lineBreaks_pos_iff behind).mp hbreak with ⟨y, rfl⟩ | ⟨y, rfl⟩
  · obtain ⟨rfl, rfl⟩ := eq_of_first_feed h htext heq
    exact ⟨c, ['\n'], rfl, .inl rfl, hlength⟩
  · have heq' : c ++ '\n' :: rest = (text ++ ['\r']) ++ '\n' :: y := by
      rw [heq]
      simp
    have hreturn : '\n' ∉ text ++ ['\r'] := by simpa using htext
    obtain ⟨rfl, rfl⟩ := eq_of_first_feed h hreturn heq'
    exact ⟨text, ['\r', '\n'], by simp, .inr rfl, hlength⟩

end Rule

open Rule

/-! ## In front of a comment -/

/-- A class without a line feed does not take one as the last. -/
theorem getLast?_ne_of_class {p : Char → Bool} {t : Text} (h : ∀ c ∈ t, p c = true)
    (hp : p '\n' = false) : t.getLast? ≠ some '\n' := by
  intro hlast
  rw [h _ (List.mem_of_getLast? hlast)] at hp
  contradiction

/-- **Layout up to a line feed is read in front of another text as before**, if no newline follows.
Only a continuation looks further. -/
theorem Extent.onto_of_feed {s : Surroundings} {front rest rest' : Text} {r : Scan}
    {lexeme : Lexeme} (h : Extent s front rest r) (hlexeme : r.result = .ok lexeme)
    (hkind : lexeme.kind ≠ .layout .continuation) (hlast : front.getLast? = some '\n')
    (hbreak : newlines rest' = 0) : Extent s front rest' (r.onto rest') := by
  have hfree := lineBreaks_eq_zero_of_newlines hbreak
  cases h with
  | newline hne hfront => exact .newline hne (runs_newlines.append_eq hfront hbreak)
  | blank _ hspace => exact absurd hlast (getLast?_ne_of_class hspace (by decide))
  | bracketed _ _ _ hspace => exact absurd hlast (getLast?_ne_of_class hspace (by decide))
  | @indentation space breaks _ hstart hbrackets hne hspace hend hhash hbreaks =>
    cases breaks with
    | nil =>
      rw [List.append_nil] at hlast
      exact absurd hlast (getLast?_ne_of_class hspace (by decide))
    | cons c breaks =>
      exact .indentation hstart hbrackets hne hspace hend hhash
        (runs_lineBreaks.append_eq hbreaks hfree)
  | @lineComment space text breaks _ hstart hspace htext hbreaks =>
    have hbreaks' := runs_lineBreaks.append_eq hbreaks hfree
    refine .lineComment hstart hspace (lineLength_append_breaks htext ?_ hbreaks') hbreaks'
    rintro rfl
    rcases List.mem_append.mp (List.mem_of_getLast? hlast) with hmem | hmem
    · exact absurd (hspace _ hmem) (by decide)
    · rw [List.append_nil] at hmem
      exact not_mem_of_lineLength htext (List.mem_of_ne_of_mem (by decide) hmem)
  | comment _ htext =>
    have hmem := List.mem_of_getLast? hlast
    exact absurd (List.mem_of_ne_of_mem (by decide) hmem) (not_mem_of_lineLength htext)
  | continuation =>
    obtain rfl := Except.ok.inj hlexeme
    contradiction
  | code h hread =>
    have hinline := (h.endsInline lexeme hlexeme).2
    rw [hread] at hinline
    contradiction

namespace Lexer

theorem Takes.onto_of_feed {l : Lexer} {front rest rest' : Text} {u : Turn} {t : Token}
    (h : l.Takes front rest u) (ht : u.reply = .ok t) (hkind : t.kind ≠ .layout .continuation)
    (hlast : front.getLast? = some '\n') (hbreak : newlines rest' = 0) :
    { l with rest := front ++ rest' }.Takes front rest'
      { u with lexer := { u.lexer with rest := rest' } } := by
  cases h with
  | lexeme hrest hextent hlexeme hstop hindent hcontext =>
    obtain rfl := Except.ok.inj ht
    exact .lexeme rfl (hextent.onto_of_feed hlexeme hkind hlast hbreak) hlexeme hstop hindent
      hcontext

/-- A run that reads nothing has no tokens. -/
theorem Run.eq_or_exists_append {l m : Lexer} {ts : List Token} (hrun : Run l ts m) :
    (ts = [] ∧ m = l) ∨ ∃ read, read ≠ [] ∧ l.rest = read ++ m.rest := by
  induction hrun with
  | nil l => exact .inl ⟨rfl, rfl⟩
  | cons hnext ht heof hrun ih =>
    obtain ⟨front, rest, htakes⟩ := exists_takes_of_next hnext ht heof
    obtain ⟨hrest, hleft⟩ := htakes.append_eq
    refine .inr ?_
    rcases ih with ⟨-, rfl⟩ | ⟨read, -, hread⟩
    · exact ⟨front, htakes.front_ne_nil, by rw [hrest, hleft]⟩
    · exact ⟨front ++ read, List.append_ne_nil_of_left_ne_nil htakes.front_ne_nil _,
        by rw [hrest, ← hleft, hread, List.append_assoc]⟩

/-- **A run up to the start of a line is the same in front of another text**, if no newline follows
and the last token is no continuation. -/
theorem Run.onto {k l : Lexer} {ts : List Token} (hrun : Run k ts l) {read rest' : Text}
    (hread : k.rest = read ++ l.rest) (hfeed : read = [] ∨ read.getLast? = some '\n')
    (hlast : ts.getLast?.any (·.kind = .layout .continuation) = false)
    (hbreak : newlines rest' = 0) :
    Run { k with rest := read ++ rest' } ts { l with rest := rest' } := by
  induction hrun generalizing read with
  | nil l =>
    obtain rfl := List.self_eq_append_left.mp hread
    exact .nil _
  | @cons k l u t ts hnext ht heof hrun ih =>
    obtain ⟨front, rest, htakes⟩ := exists_takes_of_next hnext ht heof
    obtain ⟨hrest, hleft⟩ := htakes.append_eq
    rcases hrun.eq_or_exists_append with ⟨rfl, rfl⟩ | ⟨behind, hne, hbehind⟩
    · -- the last token ends with the line feed
      rw [hleft, hrest, List.append_cancel_right_eq] at hread
      subst hread
      have hkind : t.kind ≠ .layout .continuation := by simpa using hlast
      have htakes' := htakes.onto_of_feed ht hkind (hfeed.resolve_left htakes.front_ne_nil) hbreak
      exact .cons htakes'.next_eq ht heof (.nil _)
    · -- the line feed is behind the token, so three characters do not reach further
      rw [hrest, ← hleft, hbehind, ← List.append_assoc, List.append_cancel_right_eq] at hread
      subst hread
      have hfeed' : behind.getLast? = some '\n' := by
        rw [List.getLast?_append_of_ne_nil _ hne] at hfeed
        exact hfeed.resolve_left (List.append_ne_nil_of_right_ne_nil _ hne)
      have hbars : rest.Bars (behind ++ rest') := by
        rw [← hleft, hbehind]
        exact Text.bars_append (.inr (List.mem_of_getLast? hfeed')) _ _
      have htail : ts.getLast?.any (·.kind = .layout .continuation) = false := by
        cases ts with
        | nil => rfl
        | cons s ts => rwa [List.getLast?_cons_cons] at hlast
      have htakes' := htakes.onto hbars
      rw [List.append_assoc]
      exact .cons htakes'.next_eq ht heof (ih hbehind (.inr hfeed') htail)

/-! ## At the start of a line -/

/-- The lexer stands behind `before` at the start of a line, with `depth` open brackets and behind
no continuation. -/
structure StartsLine (source before : Text) (depth : Nat) (l : Lexer) : Prop where
  stands : l.Stands source before
  column_eq : l.mark.column = 0
  depth_eq : l.context.depth = depth
  afterContinuation_eq : l.context.afterContinuation = false
  file_eq : l.file = .unknown

namespace StartsLine

variable {source before front rest : Text} {depth : Nat} {l : Lexer}

theorem lineStart_eq (h : l.StartsLine source before depth) : l.surroundings.lineStart = true := by
  simp [surroundings, atLineStart, h.column_eq]

/-- In front of the line there is nothing, or a line feed. -/
theorem eq_nil_or_getLast?_eq (h : l.StartsLine source before depth) :
    before = [] ∨ before.getLast? = some '\n' := by
  by_contra hnot
  rw [not_or] at hnot
  refine Text.lastLine_append_ne_nil [] hnot.1 hnot.2 (List.length_eq_zero_iff.mp ?_)
  have hcolumn := h.column_eq
  rwa [h.stands.mark_eq] at hcolumn

/-- A line starts there whatever follows. -/
theorem with_rest (h : l.StartsLine source before depth) (rest : Text) :
    { l with rest := rest }.StartsLine (before ++ rest) before depth :=
  ⟨⟨rfl, h.stands.advance_eq, h.stands.brackets_le⟩, h.column_eq, h.depth_eq,
    h.afterContinuation_eq, h.file_eq⟩

/-- A newline is hidden there. -/
theorem endsLine_eq (h : l.StartsLine source before depth) : l.surroundings.endsLine = false :=
  (Surroundings.endsLine_eq_false_iff _).mpr ⟨h.afterContinuation_eq, .inl h.lineStart_eq⟩

/-- **Hidden layout that ends with a line feed** takes the lexer to the start of another line. -/
theorem exists_run (h : l.StartsLine source before depth) (hsize : Text.byteSize source < 2 ^ 29)
    {r : Scan} {lexeme : Lexeme} (hrest : l.rest = front ++ rest)
    (hextent : Extent l.surroundings front rest r) (hlexeme : r.result = .ok lexeme)
    (hlayout : lexeme.kind.isLayout = true) (hkind : lexeme.kind ≠ .layout .continuation)
    (hidden : lexeme.visible = false) (hlast : front.getLast? = some '\n') :
    ∃ t m, Run l [t] m ∧ t.visible = false ∧ m.rest = rest ∧
      m.StartsLine source (before ++ front) depth := by
  obtain ⟨u, t, htakes, ht, htkind, -, htvisible⟩ :=
    h.stands.exists_takes hsize hrest hextent hlexeme
  have heof := htakes.isEof_eq_false ht
  obtain ⟨-, hstands⟩ := htakes.spans h.stands ht
  obtain ⟨-, -, -, -, hcontext⟩ := h.stands.token htakes.next_eq ht heof
  have hafter := Context.after_eq_ok hcontext
  refine ⟨t, u.lexer, .cons htakes.next_eq ht heof (.nil _), htvisible.trans hidden,
    htakes.append_eq.2, hstands, ?_, ?_, ?_, ?_⟩
  · rw [hstands.mark_eq]
    exact congrArg List.length (Text.lastLine_append_of_getLast? before hlast)
  · rw [hafter, htkind]
    exact (Kind.depthAfter_of_isLayout hlayout _).trans h.depth_eq
  · rw [hafter, htkind]
    exact decide_eq_false hkind
  · cases htakes with
    | lexeme => exact h.file_eq

/-- A run of line breaks ends with a line feed. -/
theorem getLast?_of_run {k : Nat} (hlength : front.length = k + 1)
    (hfeed : (front ++ rest)[k]? = some '\n') : front.getLast? = some '\n' := by
  rw [List.getElem?_append_left (by omega)] at hfeed
  rwa [List.getLast?_eq_getElem?, hlength]

/-- A newline that starts at the start of a line is hidden, if there is one. -/
theorem exists_run_newline (h : l.StartsLine source before depth)
    (hsize : Text.byteSize source < 2 ^ 29) (hrest : l.rest = front ++ rest)
    (hbreak : newlines (front ++ rest) = front.length) :
    ∃ ts m, Run l ts m ∧ (∀ t ∈ ts, t.visible = false) ∧ m.rest = rest ∧
      m.StartsLine source (before ++ front) depth := by
  by_cases hne : front = []
  · subst hne
    exact ⟨[], l, .nil l, fun _ ht => absurd ht List.not_mem_nil, hrest, by simpa using h⟩
  · have hpos : 0 < newlines (front ++ rest) := by
      rw [hbreak]
      exact List.length_pos_iff.mpr hne
    obtain ⟨k, hk, hfeed⟩ := exists_newlines_eq hpos
    obtain ⟨t, m, hrun, hidden, hleft, hstarts⟩ := h.exists_run hsize hrest (.newline hne hbreak)
      rfl rfl (by simp) h.endsLine_eq (getLast?_of_run (hbreak.symm.trans hk) hfeed)
    exact ⟨[t], m, hrun, by simpa using hidden, hleft, hstarts⟩

/-- A comment line takes the line breaks behind it along. -/
theorem exists_run_comment (h : l.StartsLine source before depth)
    (hsize : Text.byteSize source < 2 ^ 29) {u c breaks : Text}
    (hu : ∀ d ∈ u, isIndent d = true) (hc : '\n' ∉ c)
    (hrest : l.rest = u ++ '#' :: (c ++ '\n' :: (breaks ++ rest)))
    (hbreaks : lineBreaks (breaks ++ rest) = breaks.length) :
    ∃ t m, Run l [t] m ∧ t.visible = false ∧ m.rest = rest ∧
      m.StartsLine source (before ++ (u ++ '#' :: (c ++ '\n' :: breaks))) depth := by
  obtain ⟨text, feed, heq, hfeed, htext⟩ := exists_feed hc (breaks ++ rest)
  have hfront : c ++ '\n' :: breaks = text ++ (feed ++ breaks) := by
    rw [← List.append_assoc, ← heq]
    simp
  have hrun : lineBreaks (feed ++ breaks ++ rest) = (feed ++ breaks).length := by
    rcases hfeed with rfl | rfl <;> simp [lineBreaks, hbreaks]
  have hpos : 0 < lineBreaks (feed ++ breaks ++ rest) := by
    rcases hfeed with rfl | rfl <;> simp [lineBreaks]
  obtain ⟨k, hk, hlast⟩ := exists_lineBreaks_eq hpos
  have hlast' := getLast?_of_run (hrun.symm.trans hk) hlast
  rw [← List.append_assoc feed] at htext
  rw [hfront]
  refine h.exists_run hsize ?_ (.lineComment h.lineStart_eq hu htext hrun) rfl rfl (by simp) rfl ?_
  · have hwhole := congrArg (u ++ '#' :: · ++ rest) hfront
    simpa [hrest] using hwhole
  · have hne : feed ++ breaks ≠ [] := List.ne_nil_of_length_pos (hrun ▸ hpos)
    rw [List.getLast?_append_of_ne_nil _ (by simp), ← List.cons_append,
      List.getLast?_append_of_ne_nil _ hne, hlast']

/-- Lexers at the start of a line, with the same text in front of them. -/
theorem ahead {source' before' : Text} {l' : Lexer} {d : Shift}
    (h' : l'.StartsLine source' before' depth) (h : l.StartsLine source before depth)
    (hrest : l'.rest = l.rest) (hbytes : Text.byteSize before' = Text.byteSize before + d.bytes)
    (hlines : before'.count '\n' = before.count '\n' + d.lines) : Ahead d l' l := by
  have hmark : l'.mark = l.mark.shift d := by
    have hcolumn := h'.column_eq
    have hcolumn' := h.column_eq
    rw [h'.stands.mark_eq, h.stands.mark_eq] at *
    simp only [Text.endMark, Mark.shift] at *
    rw [hbytes, hlines, hcolumn, hcolumn', Nat.add_assoc]
  refine ⟨h'.file_eq.trans h.file_eq.symm, hrest, hmark, h'.depth_eq.trans h.depth_eq.symm,
    h'.afterContinuation_eq.trans h.afterContinuation_eq.symm, ?_⟩
  exact h'.lineStart_eq.trans h.lineStart_eq.symm

/-- **With a comment line and without it**, a lexer passes hidden tokens only until it stands in
front of the same text. -/
theorem exists_runs {a b u c : Text} {l' : Lexer} {source' : Text}
    (h : l.StartsLine source a depth) (hsize : Text.byteSize source < 2 ^ 29) (hrest : l.rest = b)
    (h' : l'.StartsLine source' a depth) (hsize' : Text.byteSize source' < 2 ^ 29)
    (hu : ∀ d ∈ u, isIndent d = true) (hc : '\n' ∉ c)
    (hrest' : l'.rest = u ++ '#' :: (c ++ '\n' :: b)) :
    ∃ ts ts' m m' d after, Run l ts m ∧ (∀ t ∈ ts, t.visible = false) ∧ Run l' ts' m' ∧
      (∀ t ∈ ts', t.visible = false) ∧ Ahead d m' m ∧ m'.Stands source' after := by
  -- the comment takes the line breaks, and a newline with a form feed may follow them
  obtain ⟨breaks, behind, rfl, hbreaks⟩ := Text.exists_append_of_le (runs_lineBreaks.le_length b)
  obtain ⟨feeds, rest, rfl, hfeeds⟩ := Text.exists_append_of_le (runs_newlines.le_length behind)
  have hnewline : newlines (breaks ++ feeds ++ rest) = (breaks ++ feeds).length := by
    rw [List.append_assoc, newlines_append_of_lineBreaks hbreaks, hfeeds, List.length_append]
  rw [← List.append_assoc] at hrest
  obtain ⟨ts, m, hrun, hidden, hleft, hm⟩ := h.exists_run_newline hsize hrest hnewline
  obtain ⟨t, k, hcomment, hthidden, hk, hkline⟩ := h'.exists_run_comment hsize' hu hc hrest' hbreaks
  obtain ⟨ts', m', hrun', hidden', hleft', hm'⟩ := hkline.exists_run_newline hsize' hk hfeeds
  have hahead := hm'.ahead (d := ⟨Text.byteSize (u ++ '#' :: (c ++ ['\n'])),
    (u ++ '#' :: (c ++ ['\n'])).count '\n'⟩) hm (hleft'.trans hleft.symm) ?_ ?_
  · refine ⟨ts, t :: ts', m, m', _, _, hrun, hidden, ?_, ?_, hahead, hm'.stands⟩
    · cases hcomment with
      | cons hnext ht heof hnil =>
        cases hnil
        exact .cons hnext ht heof hrun'
    · simpa using ⟨hthidden, hidden'⟩
  · simp only [Text.byteSize_append, Text.byteSize_cons, Text.byteSize_nil]
    omega
  · simp only [List.count_append, List.count_cons, List.count_nil]
    omega

end StartsLine

/-! ## Runs side by side -/

/-- A token, moved with its line. -/
def shiftToken (d : Shift) (t : Token) : Token := { t with span := t.span.shift d }

namespace Ahead

variable {d : Shift} {l k m : Lexer} {ts : List Token} {source before : Text}

/-- A run of one lexer is a run of the one that is ahead of it. -/
theorem exists_run (hrun : Run k ts m) (h : Ahead d l k) (hstands : l.Stands source before)
    (hsize : Text.byteSize source < 2 ^ 29) :
    ∃ n after, Run l (ts.map (shiftToken d)) n ∧ Ahead d n m ∧ n.Stands source after := by
  induction hrun generalizing l before with
  | nil k => exact ⟨l, before, .nil l, h, hstands⟩
  | cons hnext ht heof hrun ih =>
    obtain ⟨v, hv⟩ := hstands.exists_next hsize
    obtain ⟨hreply, hahead⟩ := h.next hv hnext
    rw [ht] at hreply
    obtain ⟨taken, -, -, hstands', -⟩ := hstands.token hv hreply heof
    obtain ⟨n, after, hrun', hahead', hafter⟩ := ih hahead hstands'
    exact ⟨n, after, .cons hv hreply heof hrun', hahead', hafter⟩

/-- **A lexer that is ahead of another gives the same tokens**, further on. -/
theorem map_tokens_turns (h : Ahead d l k) (hstands : l.Stands source before)
    (hsize : Text.byteSize source < 2 ^ 29)
    (hk : (k.turns .full).map Turn.tokens = .ok (.ok ts)) :
    (l.turns .full).map Turn.tokens = .ok (.ok (ts.map (shiftToken d))) := by
  obtain ⟨us, hus, htokens⟩ := Checked.map_eq_ok_iff.mp hk
  obtain ⟨front, m, u, hrun, hnext, hstops, heq, -⟩ := exists_run_of_turns hus
  rw [htokens] at heq
  obtain ⟨n, after, hrun', hahead, hafter⟩ := h.exists_run hrun hstands hsize
  obtain ⟨v, hv⟩ := hafter.exists_next hsize
  obtain ⟨hreply, -⟩ := hahead.next hv hnext
  cases ht : u.reply with
  | error e => simp [ht, Except.map] at heq
  | ok t =>
    rw [ht] at heq hreply hstops
    obtain rfl := Except.ok.inj heq
    have hstops' : stops v.reply = true := by rwa [hreply]
    rw [hrun'.tokens_turns hv hstops', hreply]
    simp [Except.map, shiftReply, shiftToken]

end Ahead

/-- The tokens of a strict run are those of a run and of a strict run from its end. -/
theorem Run.exists_map_tokens_turns {l m : Lexer} {ts tokens : List Token} (hrun : Run l ts m)
    (h : (l.turns .full).map Turn.tokens = .ok (.ok tokens)) :
    ∃ us, (m.turns .full).map Turn.tokens = .ok (.ok us) ∧ tokens = ts ++ us := by
  rw [hrun.map_tokens_turns] at h
  obtain ⟨reply, hreply, heq⟩ := Checked.map_eq_ok_iff.mp h
  cases reply with
  | error e => contradiction
  | ok us => exact ⟨us, hreply, (Except.ok.inj heq).symm⟩

end Lexer

/-! ## Comment lines -/

theorem tokenizeVisible_of_tokenize {source : Text} {tokens : List Token}
    (h : tokenize source = .ok (.ok tokens)) :
    tokenizeVisible source = .ok (.ok (tokens.filter (·.visible))) := by
  have hfull : ((Lexer.ofSource source).turns .full).map Turn.tokens = .ok (.ok tokens) := h
  rw [tokenizeVisible, tokenizeIn, Lexer.map_tokens_turns_visible, hfull]
  rfl

/-- Behind tokens without a continuation at their end the context remembers none. -/
theorem Context.Follows.afterContinuation_eq_false {x : Context} {tokens : List Token} {i : Nat}
    (h : x.Follows (tokens.take i)) (hi : i < tokens.length)
    (hbefore : i = 0 ∨ tokens[i - 1]?.map (·.kind) ≠ some (.layout .continuation)) :
    x.afterContinuation = false := by
  rw [h.afterContinuation]
  cases i with
  | zero => simp
  | succ i =>
    have hlast : tokens[i]? = some tokens[i] := List.getElem?_eq_getElem (by omega)
    simpa [List.getLast?_take, hlast] using hbefore

/-- The lexer at a token that starts a line. -/
theorem exists_startsLine_of_tokenize {a b : Text} {tokens : List Token}
    (h : tokenize (a ++ b) = .ok (.ok tokens)) {i : Nat} (hi : i < tokens.length)
    (hstart : tokens[i].span.start = Text.byteSize a) (hcolumn : tokens[i].span.column = 0)
    (hbefore : i = 0 ∨ tokens[i - 1]?.map (·.kind) ≠ some (.layout .continuation)) :
    ∃ l, Lexer.Run (.ofSource (a ++ b)) (tokens.take i) l ∧ l.rest = b ∧
      l.StartsLine (a ++ b) a l.context.depth ∧
      (tokens.take i).getLast?.any (·.kind = .layout .continuation) = false := by
  obtain ⟨l, u, hrun, hnext, hreply⟩ := exists_run_take_of_tokenize h hi
  obtain ⟨before, hpassed⟩ := (Lexer.passed_ofSource (a ++ b)).run hrun
  obtain ⟨stop, hspan⟩ := Lexer.replySpan_of_next hnext
  rw [hreply] at hspan
  have hmark : tokens[i].span = l.spanTo stop := hspan
  have hoffset : Text.byteSize before = Text.byteSize a := by
    rw [← hstart, hpassed.start_eq hnext hreply]
  obtain ⟨rfl, hrest⟩ := Text.append_inj_of_byteSize hpassed.stands.append_rest hoffset
  have hfollows : l.context.Follows (tokens.take i) := hpassed.follows
  have hcontinuation := hfollows.afterContinuation_eq_false hi hbefore
  refine ⟨l, hrun, hrest, ⟨hpassed.stands, ?_, rfl, hcontinuation, hpassed.reachable.file_eq⟩, ?_⟩
  · rw [← hcolumn, hmark]
    rfl
  · rw [← hfollows.afterContinuation, hcontinuation]

/-- **Comment lines are transparent**: a line with nothing but space and a comment, put in where a
token starts at column zero and not right behind a continuation, leaves the kinds and texts of the
visible tokens as they are, inside brackets or outside. -/
theorem tokenizeVisible_commentLine {a b : Text} {tokens : List Token}
    (h : tokenize (a ++ b) = .ok (.ok tokens)) {i : Nat} (hi : i < tokens.length)
    (hstart : tokens[i].span.start = Text.byteSize a) (hcolumn : tokens[i].span.column = 0)
    (hbefore : i = 0 ∨ tokens[i - 1]?.map (·.kind) ≠ some (.layout .continuation)) {u c : Text}
    (hu : ∀ d ∈ u, isIndent d = true) (hc : '\n' ∉ c)
    (hsize : Text.byteSize (a ++ u ++ '#' :: c ++ '\n' :: b) < 2 ^ 29) :
    ∃ vs ws, tokenizeVisible (a ++ b) = .ok (.ok vs) ∧
      tokenizeVisible (a ++ u ++ '#' :: c ++ '\n' :: b) = .ok (.ok ws) ∧
      ws.map (fun t => (t.kind, t.text)) = vs.map fun t => (t.kind, t.text) := by
  obtain ⟨l, hrun, hrest, hline, hlast⟩ :=
    exists_startsLine_of_tokenize h hi hstart hcolumn hbefore
  have hsource : a ++ u ++ '#' :: c ++ '\n' :: b = a ++ (u ++ '#' :: (c ++ '\n' :: b)) := by simp
  have hsize₁ : Text.byteSize (a ++ b) < 2 ^ 29 := by
    simp only [Text.byteSize_append, Text.byteSize_cons] at hsize ⊢
    omega
  rw [hsource] at hsize ⊢
  -- the tokens in front of the comment are the same
  have hbreak : newlines (u ++ '#' :: (c ++ '\n' :: b)) = 0 := by
    cases u with
    | nil => exact newlines_cons_eq_zero _ (by decide) (by decide) (by decide)
    | cons d u => exact newlines_of_isIndent _ (hu d List.mem_cons_self)
  have hrun' : Lexer.Run (.ofSource (a ++ (u ++ '#' :: (c ++ '\n' :: b)))) (tokens.take i)
      { l with rest := u ++ '#' :: (c ++ '\n' :: b) } :=
    hrun.onto (by rw [hrest]; rfl) hline.eq_nil_or_getLast?_eq hlast hbreak
  obtain ⟨ts, ts', m, m', d, after, hts, hidden, hts', hidden', hahead, hstands⟩ :=
    hline.exists_runs hsize₁ hrest (hline.with_rest _) hsize hu hc rfl
  obtain ⟨us, hus, htokens⟩ := hrun.exists_map_tokens_turns h
  obtain ⟨vs, hvs, rfl⟩ := hts.exists_map_tokens_turns hus
  have htokenize : tokenize (a ++ (u ++ '#' :: (c ++ '\n' :: b))) =
      .ok (.ok (tokens.take i ++ (ts' ++ vs.map (Lexer.shiftToken d)))) := by
    rw [tokenize, tokenizeIn, hrun'.map_tokens_turns, hts'.map_tokens_turns,
      hahead.map_tokens_turns hstands hsize hvs]
    rfl
  refine ⟨_, _, tokenizeVisible_of_tokenize h, tokenizeVisible_of_tokenize htokenize, ?_⟩
  rw [htokens, List.take_left' (by simp; omega)]
  have hnil : ts.filter (·.visible) = [] := List.filter_eq_nil_iff.mpr (by simpa using hidden)
  have hnil' : ts'.filter (·.visible) = [] := List.filter_eq_nil_iff.mpr (by simpa using hidden')
  simp only [List.filter_append, hnil, hnil', List.filter_map, List.map_append, List.map_map]
  rfl

/-- Inside brackets, with space in front of the hash sign and a carriage return at the end. -/
theorem tokenizeVisible_commentLine_in_brackets :
    ∃ vs ws, tokenizeVisible ['(', '\n', ')'] = .ok (.ok vs) ∧
      tokenizeVisible ['(', '\n', ' ', '\t', '#', 'c', '\r', '\n', ')'] = .ok (.ok ws) ∧
      ws.map (fun t => (t.kind, t.text)) = vs.map fun t => (t.kind, t.text) := by
  have h : tokenize (['(', '\n'] ++ [')']) = .ok (.ok [
      ⟨.symbol .leftParen, ['('], ⟨0, 1, 1, 0, ⟨0⟩⟩, true⟩,
      ⟨.layout .newline, ['\n'], ⟨1, 2, 1, 1, ⟨0⟩⟩, false⟩,
      ⟨.symbol .rightParen, [')'], ⟨2, 3, 2, 0, ⟨0⟩⟩, true⟩,
      ⟨.eof, [], ⟨3, 3, 2, 1, ⟨0⟩⟩, true⟩]) := by decide +kernel
  exact tokenizeVisible_commentLine h (i := 2) (by decide) rfl rfl (by decide) (u := [' ', '\t'])
    (c := ['c', '\r']) (by simp [isIndent]) (by decide) (by decide)

end Lexis
