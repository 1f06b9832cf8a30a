import Lexis.Proofs.Layout
import Lexis.Proofs.LineColumn
import Lexis.Proofs.Visibility

/-!
# The ends of logical lines

Outside brackets a line feed behind code is seen by the parser, as part of a newline, unless a
continuation is in between. The reason is an invariant of the run: behind code the lexer is not at
the start of a line, and as long as it is not, hidden tokens other than continuations are space and
comments, which stay on the line.

* `Text.lastLine`: what a text has behind its last line feed. It is empty exactly where a line
  starts (`Lexer.Passed.lineStart_iff`).
* `Lexer.Passed`: a lexer that has run through some tokens of a source. `Lexer.Passed.token` is one
  more token, with what it makes of the line.
* `Token.IsFiller`: the tokens that may stand between two others of a logical line.
* `Lexer.Run.exists_gap`: a run over fillers in the middle of a line stays on it.
* `not_mem_gap_of_tokenize`: no line feed is lost between two tokens of a source.
-/

namespace Lexis

namespace Text

/-! ## The last line of a text -/

/-- What a text has behind its last line feed. -/
def lastLine (t : Text) : Text := t.rtakeWhile (· ≠ '\n')

theorem lastLine_append_of_getLast? (t : Text) {s : Text} (h : s.getLast? = some '\n') :
    lastLine (t ++ s) = [] := by
  obtain ⟨front, rfl⟩ := List.getLast?_eq_some_iff.mp h
  rw [lastLine, ← List.append_assoc]
  exact List.rtakeWhile_concat_neg _ _ _ (by simp)

theorem lastLine_append_of_not_mem (t : Text) {s : Text} (h : '\n' ∉ s) :
    lastLine (t ++ s) = lastLine t ++ s := by
  induction s using List.reverseRecOn with
  | nil => simp
  | append_singleton s c ih =>
    have hc : c ≠ '\n' := by
      rintro rfl
      simp at h
    have hs : '\n' ∉ s := fun hmem => h (List.mem_append_left _ hmem)
    have hconcat : lastLine (t ++ s ++ [c]) = lastLine (t ++ s) ++ [c] :=
      List.rtakeWhile_concat_pos _ _ _ (by simpa using hc)
    rw [← List.append_assoc, hconcat, ih hs, List.append_assoc]

theorem lastLine_append_ne_nil (t : Text) {s : Text} (hne : s ≠ [])
    (h : s.getLast? ≠ some '\n') : lastLine (t ++ s) ≠ [] := by
  obtain ⟨front, c, rfl⟩ := s.eq_nil_or_concat.resolve_left hne
  have hc : c ≠ '\n' := by simpa using h
  have hconcat : lastLine (t ++ front ++ [c]) = lastLine (t ++ front) ++ [c] :=
    List.rtakeWhile_concat_pos _ _ _ (by simpa using hc)
  rw [List.concat_eq_append, ← List.append_assoc, hconcat]
  simp

end Text

namespace Lexer

/-! ## A lexer and the tokens behind it -/

theorem Run.exists_of_append {l m : Lexer} {ts us : List Token} (hrun : Run l (ts ++ us) m) :
    ∃ k, Run l ts k ∧ Run k us m := by
  induction ts generalizing l with
  | nil => exact ⟨l, .nil l, hrun⟩
  | cons t ts ih =>
    cases hrun with
    | cons hnext ht heof hrun =>
      obtain ⟨k, hfront, hback⟩ := ih hrun
      exact ⟨k, .cons hnext ht heof hfront, hback⟩

/-- The lexer has run through the tokens `past` and stands behind the part `before` of `source`. -/
structure Passed (source before : Text) (past : List Token) (l : Lexer) : Prop where
  reachable : Reachable source .unknown l
  stands : l.Stands source before
  follows : l.context.Follows past

theorem passed_ofSource (source : Text) : (ofSource source).Passed source [] [] :=
  ⟨.start, stands_ofSource source .unknown, Context.follows_ofSource source .unknown⟩

namespace Passed

variable {source before : Text} {past : List Token} {l : Lexer} {u : Turn} {t : Token}

/-- The lexer is at the start of a line exactly if nothing is behind the last line feed. -/
theorem lineStart_iff (h : l.Passed source before past) :
    l.surroundings.lineStart = true ↔ Text.lastLine before = [] := by
  have hcolumn : l.mark.column = (Text.lastLine before).length := by
    rw [h.stands.mark_eq]
    rfl
  rw [← List.length_eq_zero_iff, ← hcolumn]
  exact h.reachable.atLineStart_iff

theorem lineStart_eq_false (h : l.Passed source before past) (hline : Text.lastLine before ≠ []) :
    l.surroundings.lineStart = false := by
  rw [← Bool.not_eq_true, h.lineStart_iff]
  exact hline

/-- The lexer is outside brackets exactly if the tokens behind it leave none open. -/
theorem inBrackets_eq_false_iff (h : l.Passed source before past) :
    l.surroundings.inBrackets = false ↔ Token.depth past = 0 := by
  rw [← h.follows.counts.depth_eq]
  simp [surroundings, Context.inBrackets]

/-- **One more token**, with what it makes of the line. -/
theorem token (h : l.Passed source before past) (hnext : l.next = .ok u) (ht : u.reply = .ok t)
    (heof : t.isEof = false) :
    ∃ r : Reading, r.whole = l.rest ∧ r.taken ≠ [] ∧ u.lexer.rest = r.left ∧
      Lexeme.Lays l.surroundings r ⟨t.kind, t.visible, t.text⟩ ∧ t.Spans before r.taken ∧
      u.lexer.Passed source (before ++ r.taken) (past ++ [t]) := by
  have hcall : l.call .next = .ok (.reply u.reply, u.lexer) := by
    rw [Lexer.call, hnext]
    rfl
  have hcontext := context_of_token hnext ht heof
  obtain ⟨taken, hne, hspans, hstands, -⟩ := h.stands.token hnext ht heof
  cases answers_of_next hnext with
  | eof hrest =>
    obtain rfl := Except.ok.inj ht
    contradiction
  | error hrest hstop hcause => contradiction
  | @token c rest lexeme stop context hrest hstop hlexeme hafter =>
    obtain rfl := Except.ok.inj ht
    have hscan := whole_scan l.surroundings c rest
    -- what the token stands for is what the rule has taken, as the rest is the same
    have htaken : taken = (scan l.surroundings c rest).reading.taken := by
      have hsource := hstands.append_rest
      rw [← h.stands.append_rest, List.append_assoc] at hsource
      have hwhole := List.append_cancel_left hsource
      rw [hrest, ← hscan] at hwhole
      exact List.append_cancel_right hwhole
    subst htaken
    exact ⟨_, hscan.trans hrest.symm, hne, rfl, lays_scan _ _ _ lexeme hlexeme, hspans,
      h.reachable.call hcall, hstands, h.follows.after hcontext⟩

/-- A run leads from one lexer that has passed tokens to another. -/
theorem run {m : Lexer} {ts : List Token} (h : l.Passed source before past) (hrun : Run l ts m) :
    ∃ after, m.Passed source after (past ++ ts) := by
  induction hrun generalizing before past with
  | nil l => exact ⟨before, by simpa using h⟩
  | cons hnext ht heof hrun ih =>
    obtain ⟨r, -, -, -, -, -, hpassed⟩ := h.token hnext ht heof
    obtain ⟨after, hafter⟩ := ih hpassed
    exact ⟨after, by simpa using hafter⟩

/-- What comes next starts behind the text that has been read. -/
theorem start_eq (h : l.Passed source before past) (hnext : l.next = .ok u) (ht : u.reply = .ok t) :
    t.span.start = Text.byteSize before := by
  obtain ⟨stop, hspan⟩ := replySpan_of_next hnext
  rw [ht] at hspan
  rw [show t.span = l.spanTo stop from hspan]
  exact h.stands.offset_eq

end Passed

end Lexer

/-! ## Fillers -/

/-- What a parser does not see is layout. -/
theorem Kind.isLayout_of_visibleIf {endsLine : Bool} {kind : Kind}
    (h : kind.visibleIf endsLine = false) : kind.isLayout = true := by
  cases kind with
  | layout l => rfl
  | _ => contradiction

/-- What a parser sees is layout only if it is a newline. -/
theorem Kind.isLayout_eq_false_of_visibleIf {endsLine : Bool} {kind : Kind}
    (h : kind.visibleIf endsLine = true) (hkind : kind ≠ .layout .newline) :
    kind.isLayout = false := by
  cases kind with
  | layout l => cases l <;> simp_all [visibleIf]
  | _ => rfl

/-- Layout is no bracket. -/
theorem Kind.depthAfter_of_isLayout {kind : Kind} (h : kind.isLayout = true) (depth : Nat) :
    kind.depthAfter depth = depth := by
  cases kind with
  | layout l => rfl
  | _ => contradiction

/-- A token that may stand between two others of a logical line: hidden, and no continuation. -/
def Token.IsFiller (t : Token) : Prop := t.visible = false ∧ t.kind ≠ .layout .continuation

instance : DecidablePred Token.IsFiller := fun t =>
  inferInstanceAs (Decidable (t.visible = false ∧ t.kind ≠ .layout .continuation))

/-- **In the middle of a line** outside brackets a hidden lexeme other than a continuation is space
or a comment, and stays on the line. -/
theorem Lexeme.Lays.inline_of_hidden {s : Surroundings} {r : Reading} {lexeme : Lexeme}
    (h : lexeme.Lays s r) (hstart : s.lineStart = false) (hbrackets : s.inBrackets = false)
    (hidden : lexeme.kind.visibleIf s.endsLine = false)
    (hkind : lexeme.kind ≠ .layout .continuation) :
    r.Inline ∧ ((∀ c ∈ r.taken, isBlank c = true) ∨ r.whole.head? = some '#') := by
  have hends : s.endsLine = true := by simp [Surroundings.endsLine, hstart, hbrackets]
  cases h with
  | code hcode hhead hlast =>
    rw [Kind.isLayout_of_visibleIf hidden] at hcode
    contradiction
  | newline _ hnewline =>
    rw [hnewline] at hidden
    exact absurd (hends.symm.trans hidden) (by decide)
  | blank hblank hall hhead =>
    refine ⟨fun hmem => ?_, .inl hall⟩
    have := hall _ hmem
    contradiction
  | comment hcomment _ hhead hinline => exact ⟨hinline, .inr hhead⟩
  | lineComment hcomment htrue hlast =>
    rw [hstart] at htrue
    contradiction
  | indentation breaks hindent htrue hout hne htaken htext hbreaks =>
    rw [hstart] at htrue
    contradiction
  | continuation hcontinuation => exact absurd hcontinuation hkind

/-- A lexeme that is no layout starts without space and ends on its line. -/
theorem Lexeme.Lays.of_not_layout {s : Surroundings} {r : Reading} {lexeme : Lexeme}
    (h : lexeme.Lays s r) (hkind : lexeme.kind.isLayout = false) :
    r.whole.head?.any isBlank = false ∧ r.taken.getLast? ≠ some '\n' := by
  cases h with
  | code _ hhead hlast => exact ⟨hhead, hlast⟩
  | _ => simp_all [Kind.isLayout]

namespace Lexer

variable {source before : Text} {past ts : List Token} {l m : Lexer}

/-- A hidden token leaves the brackets as they are. -/
theorem depth_concat_of_hidden {u : Turn} {t : Token} (hnext : l.next = .ok u)
    (ht : u.reply = .ok t) (hidden : t.visible = false) (past : List Token) :
    Token.depth (past ++ [t]) = Token.depth past := by
  rw [visible_of_next hnext ht] at hidden
  rw [Token.depth_concat, Kind.depthAfter_of_isLayout (Kind.isLayout_of_visibleIf hidden)]

/-- Hidden tokens of a run leave the brackets as they are. -/
theorem Run.depth_append_of_hidden (hrun : Run l ts m) (hidden : ∀ t ∈ ts, t.visible = false)
    (past : List Token) : Token.depth (past ++ ts) = Token.depth past := by
  induction hrun generalizing past with
  | nil l => rw [List.append_nil]
  | @cons l m u t ts hnext ht heof hrun ih =>
    have htail := ih (fun s hs => hidden s (List.mem_cons_of_mem _ hs)) (past ++ [t])
    rw [List.append_assoc, List.singleton_append] at htail
    rw [htail, depth_concat_of_hidden hnext ht (hidden t List.mem_cons_self)]

/-- A filler in the middle of a line, outside brackets, stays on the line. -/
theorem Passed.inline_of_filler (h : l.Passed source before past) (hdepth : Token.depth past = 0)
    (hline : Text.lastLine before ≠ []) {u : Turn} {t : Token} {r : Reading}
    (hnext : l.next = .ok u) (ht : u.reply = .ok t) (hfiller : t.IsFiller)
    (hlays : Lexeme.Lays l.surroundings r ⟨t.kind, t.visible, t.text⟩) :
    r.Inline ∧ ((∀ c ∈ r.taken, isBlank c = true) ∨ r.whole.head? = some '#') := by
  obtain ⟨hidden, hkind⟩ := hfiller
  rw [visible_of_next hnext ht] at hidden
  exact hlays.inline_of_hidden (h.lineStart_eq_false hline) (h.inBrackets_eq_false_iff.mpr hdepth)
    hidden hkind

/-- **A run over fillers stays on its line**, if it starts in the middle of it and outside
brackets. -/
theorem Run.exists_gap (hrun : Run l ts m) (h : l.Passed source before past)
    (hdepth : Token.depth past = 0) (hline : Text.lastLine before ≠ [])
    (hfillers : ∀ t ∈ ts, t.IsFiller) :
    ∃ gap, '\n' ∉ gap ∧ m.Passed source (before ++ gap) (past ++ ts) := by
  -- on the run: the text behind the last line feed only grows, so it never gets empty
  induction hrun generalizing before past with
  | nil l => exact ⟨[], List.not_mem_nil, by simpa using h⟩
  | @cons l m u t ts hnext ht heof hrun ih =>
    have hfiller := hfillers t List.mem_cons_self
    obtain ⟨r, -, -, -, hlays, -, hpassed⟩ := h.token hnext ht heof
    obtain ⟨hinline, -⟩ := h.inline_of_filler hdepth hline hnext ht hfiller hlays
    have hdepth' : Token.depth (past ++ [t]) = 0 := by
      rw [depth_concat_of_hidden hnext ht hfiller.1, hdepth]
    have hline' : Text.lastLine (before ++ r.taken) ≠ [] := by
      rw [Text.lastLine_append_of_not_mem before hinline]
      exact List.append_ne_nil_of_left_ne_nil hline _
    obtain ⟨gap, hgap, hafter⟩ := ih hpassed hdepth' hline'
      fun s hs => hfillers s (List.mem_cons_of_mem _ hs)
    refine ⟨r.taken ++ gap, ?_, by simpa using hafter⟩
    intro hmem
    exact (List.mem_append.mp hmem).elim hinline hgap

/-- **Behind code** the lexer is in the middle of a line. -/
theorem Passed.code (h : l.Passed source before past) {u : Turn} {t : Token}
    (hnext : l.next = .ok u) (ht : u.reply = .ok t) (heof : t.isEof = false)
    (hvisible : t.visible = true) (hkind : t.kind ≠ .layout .newline) :
    ∃ taken, t.Spans before taken ∧ Text.lastLine (before ++ taken) ≠ [] ∧
      u.lexer.Passed source (before ++ taken) (past ++ [t]) := by
  obtain ⟨r, -, hne, -, hlays, hspans, hpassed⟩ := h.token hnext ht heof
  rw [visible_of_next hnext ht] at hvisible
  have hcode := Kind.isLayout_eq_false_of_visibleIf hvisible hkind
  obtain ⟨-, hlast⟩ := hlays.of_not_layout hcode
  exact ⟨r.taken, hspans, Text.lastLine_append_ne_nil before hne hlast, hpassed⟩

end Lexer

/-! ## The tokens of a source -/

/-- A list up to an index, taken apart at an earlier index. -/
theorem take_eq_append_cons {tokens : List Token} {i j : Nat} (hij : i < j)
    (hj : j < tokens.length) :
    tokens.take j = tokens.take i ++ tokens[i] :: (tokens.take j).drop (i + 1) := by
  have hi : i < (tokens.take j).length := by
    rw [List.length_take]
    omega
  have hget : (tokens.take j)[i] = tokens[i] := List.getElem_take
  have htake : (tokens.take j).take i = tokens.take i := by
    rw [List.take_take, Nat.min_eq_left (Nat.le_of_lt hij)]
  calc tokens.take j = (tokens.take j).take i ++ (tokens.take j).drop i :=
        (List.take_append_drop i _).symm
    _ = tokens.take i ++ tokens[i] :: (tokens.take j).drop (i + 1) := by
        rw [htake, List.drop_eq_getElem_cons hi, hget]

/-- **No end of a logical line is lost**: where lexing succeeds and nothing but hidden tokens other
than continuations stands between a token and visible code in front of it, behind which no bracket
is open, there is no line feed between the two. -/
theorem not_mem_gap_of_tokenize {source : Text} {tokens : List Token}
    (h : tokenize source = .ok (.ok tokens)) {i j : Nat} (hij : i < j) (hj : j < tokens.length)
    (hvisible : tokens[i].visible = true) (hkind : tokens[i].kind ≠ .layout .newline)
    (hbetween : ∀ k (hk : k < j), i < k → tokens[k].IsFiller)
    (hdepth : Token.depth (tokens.take (i + 1)) = 0) :
    ∃ gap, Text.slice? source tokens[i].span.stop tokens[j].span.start = some gap ∧
      '\n' ∉ gap := by
  obtain ⟨k, v, hrun, hv, hreply⟩ := exists_run_take_of_tokenize h hj
  rw [take_eq_append_cons hij hj] at hrun
  obtain ⟨l, hfront, hback⟩ := hrun.exists_of_append
  cases hback with
  | @cons _ _ u _ _ hnext ht heof hmiddle =>
    obtain ⟨before, hpassed⟩ := (Lexer.passed_ofSource source).run hfront
    obtain ⟨taken, hspans, hline, hafter⟩ := hpassed.code hnext ht heof hvisible hkind
    have hpast : [] ++ tokens.take i ++ [tokens[i]] = tokens.take (i + 1) := by
      rw [List.nil_append, List.take_append_getElem]
    rw [hpast] at hafter
    have hfillers : ∀ t ∈ (tokens.take j).drop (i + 1), t.IsFiller := by
      intro t hmem
      obtain ⟨n, hn, rfl⟩ := List.getElem_of_mem hmem
      rw [List.length_drop, List.length_take] at hn
      rw [List.getElem_drop, List.getElem_take]
      exact hbetween _ (by omega) (by omega)
    obtain ⟨gap, hgap, hend⟩ := hmiddle.exists_gap hafter hdepth hline hfillers
    refine ⟨gap, ?_, hgap⟩
    have hsource := hend.stands.append_rest
    rw [hspans.stop_eq, hend.start_eq hv hreply, ← hsource, Text.byteSize_append _ gap]
    exact Text.slice?_append (before ++ taken) gap k.rest

/-- A string over two lines, and behind it space, a comment and the end of the input. -/
theorem not_mem_gap_of_tokenize_comment :
    ∃ tokens, tokenize ['"', '"', '"', '\n', '"', '"', '"', ' ', '#', 'c'] = .ok (.ok tokens) ∧
      tokens.map (·.visible) = [true, false, false, true] ∧
      ∃ gap, Text.slice? ['"', '"', '"', '\n', '"', '"', '"', ' ', '#', 'c'] 7 10 = some gap ∧
        '\n' ∉ gap := by
  have h : tokenize ['"', '"', '"', '\n', '"', '"', '"', ' ', '#', 'c'] = .ok (.ok [
      ⟨.literal .string, ['"', '"', '"', '\n', '"', '"', '"'], ⟨0, 7, 1, 0, ⟨0⟩⟩, true⟩,
      ⟨.layout .blank, [' '], ⟨7, 8, 2, 3, ⟨0⟩⟩, false⟩,
      ⟨.layout .comment, ['#', 'c'], ⟨8, 10, 2, 4, ⟨0⟩⟩, false⟩,
      ⟨.eof, [], ⟨10, 10, 2, 6, ⟨0⟩⟩, true⟩]) := by decide +kernel
  exact ⟨_, h, rfl, not_mem_gap_of_tokenize h (i := 0) (j := 3) (by decide) (by decide) rfl
    (by decide) (by decide) rfl⟩

end Lexis
