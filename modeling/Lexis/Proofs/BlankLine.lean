import Lexis.Proofs.LogicalLine

/-!
# Lines without code

Behind a newline, and at the start of a source, a lexer reads lines that hold no code: blank ones
and comments. Each of them is passed at once, or opened: its indentation is read and there is
something else behind it, or it starts with a form feed, which does not indent. This module follows
the run over hidden tokens up to the next visible one.

* `Text.fullLines`: the lines of a text in front of its last.
* `Text.isBare`: a text with nothing but space and a comment.
* `Token.lastVisible?`, `Token.hiddenTail`: the last token that a parser sees, and the hidden ones
  behind it.
* `Opened`, `Bare`: the line at which a lexer stands holds no code so far. It is `Bare` at its
  start, and `Opened` behind. `Lexer.Passed.bare_of_filler` and `Lexer.Run.bare` say that one hidden
  token and a run over them preserve it.
* `exists_bare_of_tokenize`: it holds in front of the first visible token behind a newline.
* `Line.feeds`: a form feed follows the indentation of a line.
* `exists_lastVisible?_of_newline`: a line without code does not end a logical line, unless a form
  feed follows its indentation; there it does (`blank_line_with_form_feed_ends_line`).
-/

namespace Lexis

namespace Text

/-- The lines of a text in front of its last, with their line feeds. -/
def fullLines (t : Text) : Text := t.rdropWhile (· ≠ '\n')

theorem not_mem_lastLine (t : Text) : '\n' ∉ lastLine t := by
  intro hmem
  have hne := List.mem_rtakeWhile_imp hmem
  simp at hne

theorem fullLines_append_lastLine (t : Text) : fullLines t ++ lastLine t = t :=
  List.rdropWhile_append_rtakeWhile

theorem fullLines_eq_self {t : Text} (h : lastLine t = []) : fullLines t = t := by
  have happend := fullLines_append_lastLine t
  rwa [h, List.append_nil] at happend

theorem fullLines_append_of_not_mem (t : Text) {s : Text} (h : '\n' ∉ s) :
    fullLines (t ++ s) = fullLines t := by
  have hlong := fullLines_append_lastLine (t ++ s)
  have hshort := fullLines_append_lastLine t
  rw [lastLine_append_of_not_mem t h, ← List.append_assoc] at hlong
  have heq := List.append_cancel_right hlong
  exact List.append_cancel_right (heq.trans hshort.symm)

/-- A text that starts with a form feed is not indented. -/
theorem takeWhile_isIndent_of_head? {t : Text} (h : t.head? = some '\x0c') :
    t.takeWhile isIndent = [] ∧ t.dropWhile isIndent = t := by
  obtain ⟨u, rfl⟩ := List.head?_eq_some_iff.mp h
  exact ⟨rfl, rfl⟩

/-- Nothing but space and a comment. -/
def isBare (t : Text) : Bool := (t.dropWhile isBlank).head?.all (· = '#')

theorem isBare_of_blank {t : Text} (h : ∀ c ∈ t, isBlank c = true) : isBare t = true := by
  rw [isBare, List.dropWhile_eq_nil_iff.mpr h]
  rfl

theorem isBare_of_head? {t : Text} (h : t.head? = some '#') : isBare t = true := by
  obtain ⟨u, rfl⟩ := List.head?_eq_some_iff.mp h
  rfl

theorem isBare_append {t s : Text} (ht : isBare t = true) (hs : isBare s = true) :
    isBare (t ++ s) = true := by
  unfold isBare at *
  rw [List.dropWhile_append]
  cases hdrop : t.dropWhile isBlank with
  | nil => exact hs
  | cons c u =>
    rw [hdrop] at ht
    exact ht

theorem isBare_of_isPrefix {t s : Text} (h : t <+: s) (hs : isBare s = true) :
    isBare t = true := by
  obtain ⟨u, rfl⟩ := h
  unfold isBare at *
  rw [List.dropWhile_append] at hs
  cases hdrop : t.dropWhile isBlank with
  | nil => rfl
  | cons c u =>
    rw [hdrop] at hs
    exact hs

end Text

namespace Token

/-! ## The last visible token -/

/-- The last of some tokens that a parser sees. -/
def lastVisible? (ts : List Token) : Option Token := (ts.filter (·.visible)).getLast?

/-- The hidden tokens behind the last that a parser sees. -/
def hiddenTail (ts : List Token) : List Token := ts.rtakeWhile (!·.visible)

theorem visible_of_mem_hiddenTail {ts : List Token} {t : Token} (h : t ∈ hiddenTail ts) :
    t.visible = false := by
  have hnot := List.mem_rtakeWhile_imp h
  simpa using hnot

/-- Some tokens end with the last visible one and the hidden ones behind it. -/
theorem exists_append_hiddenTail (ts : List Token) :
    ∃ front, ts = front ++ hiddenTail ts ∧ front.getLast? = lastVisible? ts := by
  refine ⟨ts.rdropWhile (!·.visible), List.rdropWhile_append_rtakeWhile.symm, ?_⟩
  induction ts using List.reverseRecOn with
  | nil => rfl
  | append_singleton ts t ih =>
    cases hvisible : t.visible with
    | true => simp [lastVisible?, hvisible]
    | false => simpa [lastVisible?, hvisible] using ih

/-- No continuation ends some tokens whose last visible one is a newline, unless one is hidden
behind it. -/
theorem getLast?_any_continuation {ts : List Token}
    (hlast : ∀ t ∈ lastVisible? ts, t.kind = .layout .newline)
    (htail : ∀ t ∈ hiddenTail ts, t.kind ≠ .layout .continuation) :
    ts.getLast?.any (·.kind = .layout .continuation) = false := by
  obtain ⟨front, heq, hfront⟩ := exists_append_hiddenTail ts
  rw [heq, List.getLast?_append]
  cases hback : (hiddenTail ts).getLast? with
  | some t => simpa using htail t (List.mem_of_getLast? hback)
  | none =>
    rw [Option.none_or, hfront]
    cases hseen : lastVisible? ts with
    | none => rfl
    | some t => simp [hlast t hseen]

end Token

/-! ## The line so far -/

/-- A line without code is opened: `past` are the tokens behind the lexer, `before` is the text that
they stand for and `rest` the text that is left. -/
structure Opened (past : List Token) (before rest : Text) : Prop where
  /-- Something of the line is read, -/
  line_ne : Text.lastLine before ≠ []
  /-- and there is no code in it. -/
  isBare : Text.isBare (Text.lastLine before) = true
  /-- If the line is indented, its indentation is one of the tokens. -/
  indentation : (Text.lastLine before ++ rest).takeWhile isIndent ≠ [] →
    ∃ t ∈ past, t.kind = .layout .indentation ∧
      t.span.start = Text.byteSize (Text.fullLines before)
  /-- The lexer is right behind the indentation, in front of something that is no line break and no
  comment, or a form feed comes behind the indentation. -/
  feeds : ((Text.lastLine before ++ rest).dropWhile isIndent = rest ∧
      Rule.lineBreak rest = 0 ∧ rest.head? ≠ some '#') ∨
    ((Text.lastLine before ++ rest).dropWhile isIndent).head? = some '\x0c'

namespace Opened

variable {past : List Token} {before : Text} {t : Token} {r : Reading}

/-- Space that starts with a form feed opens a line without indentation. -/
theorem of_blank (hline : Text.lastLine before = []) (hne : r.taken ≠ [])
    (hall : ∀ c ∈ r.taken, isBlank c = true) (hhead : r.whole.head? = some '\x0c') :
    Opened past (before ++ r.taken) r.left := by
  have hinline : r.Inline := fun hmem => absurd (hall _ hmem) (by decide)
  have hread : Text.lastLine (before ++ r.taken) = r.taken := by
    rw [Text.lastLine_append_of_not_mem before hinline, hline, List.nil_append]
  obtain ⟨htake, hdrop⟩ := Text.takeWhile_isIndent_of_head? hhead
  refine ⟨?_, ?_, ?_, ?_⟩
  · rwa [hread]
  · rw [hread]
    exact Text.isBare_of_blank hall
  · rw [hread]
    exact fun hindent => absurd htake hindent
  · rw [hread]
    exact .inr ((congrArg List.head? hdrop).trans hhead)

/-- Indentation with something behind it opens a line. -/
theorem of_indentation (hline : Text.lastLine before = []) (hne : r.taken ≠ [])
    (hspans : t.Spans before r.taken) (hkind : t.kind = .layout .indentation)
    (htaken : r.taken = r.whole.takeWhile isIndent) (hbreak : Rule.lineBreak r.left = 0)
    (hhash : r.left.head? ≠ some '#') : Opened (past ++ [t]) (before ++ r.taken) r.left := by
  have hall : ∀ c ∈ r.taken, isIndent c = true := by
    intro c hc
    rw [htaken] at hc
    exact List.mem_takeWhile_imp hc
  have hinline : r.Inline := fun hmem => absurd (hall _ hmem) (by decide)
  have hread : Text.lastLine (before ++ r.taken) = r.taken := by
    rw [Text.lastLine_append_of_not_mem before hinline, hline, List.nil_append]
  have hdrop : r.whole.dropWhile isIndent = r.left := by
    have hsplit : r.whole.takeWhile isIndent ++ r.whole.dropWhile isIndent = r.taken ++ r.left :=
      List.takeWhile_append_dropWhile
    rw [← htaken] at hsplit
    exact List.append_cancel_left hsplit
  refine ⟨?_, ?_, ?_, ?_⟩
  · rwa [hread]
  · rw [hread]
    exact Text.isBare_of_blank fun c hc => Rule.isBlank_of_isIndent (hall c hc)
  · intro _
    refine ⟨t, List.mem_append_right _ (List.mem_singleton_self t), hkind, ?_⟩
    rw [Text.fullLines_append_of_not_mem before hinline, Text.fullLines_eq_self hline]
    exact hspans.start_eq
  · rw [hread]
    exact .inl ⟨hdrop, hbreak, hhash⟩

/-- **Space and comments** leave a line opened. -/
theorem append (h : Opened past before r.whole) (hne : r.taken ≠ []) (hinline : r.Inline)
    (hspace : (∀ c ∈ r.taken, isBlank c = true) ∨ r.whole.head? = some '#') :
    Opened (past ++ [t]) (before ++ r.taken) r.left := by
  have hlong := Text.lastLine_append_of_not_mem before hinline
  -- the line is the same text as before, only more of it is read
  have honward : Text.lastLine (before ++ r.taken) ++ r.left = Text.lastLine before ++ r.whole := by
    rw [hlong, List.append_assoc]
    rfl
  have htaken : Text.isBare r.taken = true := by
    rcases hspace with hall | hhash
    · exact Text.isBare_of_blank hall
    · rw [Reading.whole, List.head?_append_of_ne_nil _ hne] at hhash
      exact Text.isBare_of_head? hhash
  refine ⟨?_, ?_, ?_, .inr ?_⟩
  · rw [hlong]
    exact List.append_ne_nil_of_left_ne_nil h.line_ne _
  · rw [hlong]
    exact Text.isBare_append h.isBare htaken
  · rw [honward, Text.fullLines_append_of_not_mem before hinline]
    intro hrun
    obtain ⟨s, hmem, hs⟩ := h.indentation hrun
    exact ⟨s, List.mem_append_left _ hmem, hs⟩
  · rw [honward]
    rcases h.feeds with ⟨hdrop, -, hhash⟩ | hfeed
    · -- right behind the indentation, space that is no comment starts with a form feed
      have hall := hspace.resolve_right hhash
      obtain ⟨c, rest, htaken⟩ := List.exists_cons_of_ne_nil hne
      have hwhole : r.whole = c :: (rest ++ r.left) := by
        rw [Reading.whole, htaken]
        rfl
      have hc : isIndent c = false := by
        have hnot := List.head?_dropWhile_not isIndent (Text.lastLine before ++ r.whole)
        rw [hdrop, hwhole] at hnot
        exact hnot
      rw [hdrop, hwhole, List.head?_cons]
      exact congrArg some (Rule.eq_formFeed (hall c (by simp [htaken])) hc)
    · exact hfeed

end Opened

/-- The line at which a lexer stands holds no code so far: it starts there, it is opened, or nothing
is left. -/
inductive Bare (past : List Token) (before rest : Text) : Prop
  | start (hline : Text.lastLine before = [])
  | opened (h : Opened past before rest)
  | ended (hrest : rest = [])

/-- A line of which something is read and something is left is opened. -/
theorem Bare.opened_of_ne_nil {past : List Token} {before rest : Text} (h : Bare past before rest)
    (hline : Text.lastLine before ≠ []) (hrest : rest ≠ []) : Opened past before rest := by
  cases h with
  | start hnil => contradiction
  | opened h => exact h
  | ended hnil => contradiction

/-- **At the start of a line** outside brackets, a hidden token other than a continuation passes the
line or opens it. -/
theorem Bare.of_lineStart {past : List Token} {before : Text} {t : Token} {r : Reading}
    {s : Surroundings} (hline : Text.lastLine before = []) (hstart : s.lineStart = true)
    (hbrackets : s.inBrackets = false) (hne : r.taken ≠ [])
    (hlays : Lexeme.Lays s r ⟨t.kind, t.visible, t.text⟩) (hspans : t.Spans before r.taken)
    (hlayout : t.kind.isLayout = true) (hkind : t.kind ≠ .layout .continuation) :
    Bare (past ++ [t]) (before ++ r.taken) r.left := by
  cases hlays with
  | code hcode =>
    rw [show t.kind.isLayout = false from hcode] at hlayout
    contradiction
  | newline _ _ _ _ hlast => exact .start (Text.lastLine_append_of_getLast? before hlast)
  | blank _ hall hhead => exact .opened (.of_blank hline hne hall (hhead hstart hbrackets))
  | comment _ hfalse =>
    rw [hstart] at hfalse
    contradiction
  | lineComment _ _ hlast =>
    rcases hlast with hlast | hleft
    · exact .start (Text.lastLine_append_of_getLast? before hlast)
    · exact .ended hleft
  | indentation breaks hindent _ _ _ htaken _ hbreaks =>
    rcases hbreaks with ⟨rfl, hbreak, hhash⟩ | hlast
    · rw [List.append_nil] at htaken
      exact .opened (.of_indentation hline hne hspans hindent htaken hbreak hhash)
    · refine .start (Text.lastLine_append_of_getLast? before ?_)
      rw [htaken, List.getLast?_append, hlast]
      rfl
  | continuation hcontinuation => exact absurd hcontinuation hkind

/-- A newline starts with a line break, or with a form feed in front of one, and ends with a line
feed. -/
theorem Lexeme.Lays.of_newline {s : Surroundings} {r : Reading} {lexeme : Lexeme}
    (h : lexeme.Lays s r) (hkind : lexeme.kind = .layout .newline) :
    (∃ onward, 0 < Rule.lineBreak onward ∧ (r.whole = onward ∨ r.whole = '\x0c' :: onward)) ∧
      r.taken.getLast? = some '\n' := by
  cases h with
  | newline onward _ hbreak hwhole hlast => exact ⟨⟨onward, hbreak, hwhole⟩, hlast⟩
  | _ => simp_all [Kind.isLayout]

namespace Lexer

variable {source before : Text} {past ts : List Token} {l m : Lexer}

/-- **One filler** leaves the line without code. -/
theorem Passed.bare_of_filler (h : l.Passed source before past) (hbare : Bare past before l.rest)
    (hdepth : Token.depth past = 0) {u : Turn} {t : Token} (hnext : l.next = .ok u)
    (ht : u.reply = .ok t) (heof : t.isEof = false) (hfiller : t.IsFiller) :
    ∃ after, u.lexer.Passed source after (past ++ [t]) ∧
      Bare (past ++ [t]) after u.lexer.rest := by
  obtain ⟨r, hwhole, hne, hleft, hlays, hspans, hpassed⟩ := h.token hnext ht heof
  refine ⟨before ++ r.taken, hpassed, ?_⟩
  rw [hleft]
  by_cases hline : Text.lastLine before = []
  · have hidden := hfiller.1
    rw [visible_of_next hnext ht] at hidden
    exact .of_lineStart hline (h.lineStart_iff.mpr hline) (h.inBrackets_eq_false_iff.mpr hdepth)
      hne hlays hspans (Kind.isLayout_of_visibleIf hidden) hfiller.2
  · rw [← hwhole] at hbare
    have hopened := hbare.opened_of_ne_nil hline (List.append_ne_nil_of_left_ne_nil hne _)
    obtain ⟨hinline, hspace⟩ := h.inline_of_filler hdepth hline hnext ht hfiller hlays
    exact .opened (hopened.append hne hinline hspace)

/-- **A run over fillers** leaves the line without code. -/
theorem Run.bare (hrun : Run l ts m) (h : l.Passed source before past)
    (hbare : Bare past before l.rest) (hdepth : Token.depth past = 0)
    (hfillers : ∀ t ∈ ts, t.IsFiller) :
    ∃ after, m.Passed source after (past ++ ts) ∧ Bare (past ++ ts) after m.rest := by
  induction hrun generalizing before past with
  | nil l => exact ⟨before, by simpa using h, by simpa using hbare⟩
  | @cons l m u t ts hnext ht heof hrun ih =>
    have hfiller := hfillers t List.mem_cons_self
    obtain ⟨middle, hpassed, hbare'⟩ := h.bare_of_filler hbare hdepth hnext ht heof hfiller
    have hdepth' : Token.depth (past ++ [t]) = 0 := by
      rw [depth_concat_of_hidden hnext ht hfiller.1, hdepth]
    obtain ⟨after, hafter, hend⟩ := ih hpassed hbare' hdepth'
      fun s hs => hfillers s (List.mem_cons_of_mem _ hs)
    exact ⟨after, by simpa using hafter, by simpa using hend⟩

/-- Behind a newline a line starts. -/
theorem Passed.lastLine_of_newline (h : l.Passed source before past) {u : Turn} {t : Token}
    (hnext : l.next = .ok u) (ht : u.reply = .ok t) (heof : t.isEof = false)
    (hkind : t.kind = .layout .newline) :
    ∃ after, u.lexer.Passed source after (past ++ [t]) ∧ Text.lastLine after = [] := by
  obtain ⟨r, -, -, -, hlays, -, hpassed⟩ := h.token hnext ht heof
  obtain ⟨-, hlast⟩ := hlays.of_newline hkind
  exact ⟨_, hpassed, Text.lastLine_append_of_getLast? before hlast⟩

/-- A run that produced nothing, or a newline last, stands at the start of a line. -/
theorem Run.lastLine_eq_nil (hrun : Run (ofSource source) ts m)
    (hlast : ∀ t ∈ ts.getLast?, t.kind = .layout .newline) :
    ∃ before, m.Passed source before ts ∧ Text.lastLine before = [] := by
  rcases ts.eq_nil_or_concat with rfl | ⟨front, t, rfl⟩
  · cases hrun with
    | nil => exact ⟨[], passed_ofSource source, rfl⟩
  · rw [List.concat_eq_append] at hrun hlast ⊢
    obtain ⟨k, hfront, hback⟩ := hrun.exists_of_append
    cases hback with
    | cons hnext ht heof hnil =>
      cases hnil with
      | nil =>
        obtain ⟨before, hpassed⟩ := (passed_ofSource source).run hfront
        rw [List.nil_append] at hpassed
        exact hpassed.lastLine_of_newline hnext ht heof (hlast t (by simp))

end Lexer

/-- **In front of the first visible token behind a newline**, or of a source, the line holds no
code, if no continuation is hidden in between and no bracket is open. -/
theorem exists_bare_of_tokenize {source : Text} {tokens : List Token}
    (h : tokenize source = .ok (.ok tokens)) {i : Nat} (hi : i < tokens.length)
    (hlast : ∀ t ∈ Token.lastVisible? (tokens.take i), t.kind = .layout .newline)
    (htail : ∀ t ∈ Token.hiddenTail (tokens.take i), t.kind ≠ .layout .continuation)
    (hdepth : Token.depth (tokens.take i) = 0) :
    ∃ (l : Lexer) (u : Turn) (before : Text), l.next = .ok u ∧ u.reply = .ok tokens[i] ∧
      l.Passed source before (tokens.take i) ∧ Bare (tokens.take i) before l.rest := by
  obtain ⟨l, u, hrun, hnext, hreply⟩ := exists_run_take_of_tokenize h hi
  obtain ⟨front, heq, hfront⟩ := Token.exists_append_hiddenTail (tokens.take i)
  rw [← hfront] at hlast
  rw [heq] at hrun hdepth
  obtain ⟨k, hfirst, hsecond⟩ := hrun.exists_of_append
  have hhidden : ∀ t ∈ Token.hiddenTail (tokens.take i), t.visible = false :=
    fun t ht => Token.visible_of_mem_hiddenTail ht
  rw [hsecond.depth_append_of_hidden hhidden] at hdepth
  obtain ⟨before, hpassed, hline⟩ := hfirst.lastLine_eq_nil hlast
  obtain ⟨after, hafter, hbare⟩ := hsecond.bare hpassed (.start hline) hdepth
    fun t ht => ⟨hhidden t ht, htail t ht⟩
  rw [← heq] at hafter hbare
  exact ⟨l, u, after, hnext, hreply, hafter, hbare⟩

/-! ## The physical line -/

namespace Line

/-- The space that a line starts with. -/
def indentation (line : Line) : Text := line.text.takeWhile isIndent

/-- Whether a form feed follows the space that a line starts with. -/
def feeds (line : Line) : Bool := (line.text.dropWhile isIndent).head? = some '\x0c'

/-- Whether a line holds nothing but space and a comment. -/
def isBare (line : Line) : Bool := Text.isBare line.text

theorem text_ofText (start : Nat) (t : Text) :
    (ofText start t).text = (t.takeWhile (· ≠ '\n')).rdropWhile (· = '\r') := rfl

/-- The text of a line is a front part of the source from there on. -/
theorem text_ofText_isPrefix (start : Nat) (t : Text) : (ofText start t).text <+: t :=
  (List.rdropWhile_prefix _ _).trans (List.takeWhile_prefix _)

/-- A character that is part of no line break stands in the text of its line. -/
theorem text_ofText_cons (start : Nat) {c : Char} (t : Text) (hfeed : c ≠ '\n')
    (hreturn : c ≠ '\r') : (ofText start (c :: t)).text = c :: (ofText start t).text := by
  have htake : (c :: t).takeWhile (· ≠ '\n') = c :: t.takeWhile (· ≠ '\n') := by simp [hfeed]
  unfold ofText
  dsimp only
  rw [htake, List.reverse_cons, List.dropWhile_append]
  split
  · rename_i hempty
    have hnil : (t.takeWhile (· ≠ '\n')).reverse.dropWhile (· = '\r') = [] :=
      List.isEmpty_iff.mp hempty
    rw [hnil]
    simp [hreturn]
  · simp

theorem text_ofText_append (start : Nat) {front : Text} (rest : Text)
    (h : ∀ c ∈ front, isIndent c = true) :
    (ofText start (front ++ rest)).text = front ++ (ofText start rest).text := by
  induction front with
  | nil => rfl
  | cons c front ih =>
    have hc := h c List.mem_cons_self
    have hfront := ih fun d hd => h d (List.mem_cons_of_mem _ hd)
    have hfeed : c ≠ '\n' := by
      rintro rfl
      contradiction
    have hreturn : c ≠ '\r' := by
      rintro rfl
      contradiction
    rw [List.cons_append, text_ofText_cons start _ hfeed hreturn, hfront, List.cons_append]

/-- The text of a line is its indentation and what is behind it. -/
theorem text_ofText_eq (start : Nat) (t : Text) :
    (ofText start t).text = t.takeWhile isIndent ++ (ofText start (t.dropWhile isIndent)).text := by
  have hall : ∀ c ∈ t.takeWhile isIndent, isIndent c = true := fun c hc =>
    List.mem_takeWhile_imp hc
  have h := text_ofText_append start (t.dropWhile isIndent) hall
  rwa [List.takeWhile_append_dropWhile] at h

theorem indentation_ofText (start : Nat) (t : Text) :
    (ofText start t).indentation = t.takeWhile isIndent := by
  have hbehind : (ofText start (t.dropWhile isIndent)).text.takeWhile isIndent = [] := by
    have hprefix := text_ofText_isPrefix start (t.dropWhile isIndent)
    have hnot := List.head?_dropWhile_not isIndent t
    cases hdrop : t.dropWhile isIndent with
    | nil => rfl
    | cons c u =>
      rw [hdrop] at hprefix hnot
      have hc : isIndent c = false := hnot
      rcases List.prefix_cons_iff.mp hprefix with htext | ⟨v, htext, -⟩
      · rw [htext]
        rfl
      · rw [htext, List.takeWhile_cons, if_neg (by simp [hc])]
  rw [indentation, text_ofText_eq, List.takeWhile_append_of_pos fun c hc =>
    List.mem_takeWhile_imp hc, hbehind, List.append_nil]

/-- A line break is no part of the text of the line that it ends. -/
theorem text_ofText_lineBreak (start : Nat) {front rest : Text} (h : '\n' ∉ front)
    (hbreak : 0 < Rule.lineBreak rest) : (ofText start (front ++ rest)).text <+: front := by
  have hfront : ∀ c ∈ front, decide (c ≠ '\n') = true := by
    intro c hc
    rw [decide_eq_true_eq]
    rintro rfl
    exact h hc
  rw [text_ofText, List.takeWhile_append_of_pos hfront]
  unfold Rule.lineBreak at hbreak
  split at hbreak
  · simpa using List.rdropWhile_prefix (· = '\r') front
  · simpa using List.rdropWhile_prefix (· = '\r') front
  · contradiction

/-- A line without code up to a newline is one. -/
theorem isBare_ofText (start : Nat) {front rest onward : Text} (h : Text.isBare front = true)
    (hfront : '\n' ∉ front) (hbreak : 0 < Rule.lineBreak onward)
    (honward : rest = onward ∨ rest = '\x0c' :: onward) :
    (ofText start (front ++ rest)).isBare = true := by
  rcases honward with rfl | rfl
  · exact Text.isBare_of_isPrefix (text_ofText_lineBreak start hfront hbreak) h
  · rw [List.append_cons]
    have hfeed : '\n' ∉ front ++ ['\x0c'] := by simpa using hfront
    exact Text.isBare_of_isPrefix (text_ofText_lineBreak start hfeed hbreak)
      (Text.isBare_append h rfl)

theorem feeds_ofText (start : Nat) {t : Text} (h : (t.dropWhile isIndent).head? = some '\x0c') :
    (ofText start t).feeds = true := by
  obtain ⟨u, hdrop⟩ := List.head?_eq_some_iff.mp h
  have htext := text_ofText_eq start t
  rw [hdrop, text_ofText_cons start u (by decide) (by decide)] at htext
  rw [feeds, htext, List.dropWhile_append_of_pos fun c hc => List.mem_takeWhile_imp hc]
  rfl

end Line

/-- **The physical line** of what comes next: it starts behind the last line feed that is read. -/
theorem Lexer.Passed.line?_eq {source before : Text} {past : List Token} {l : Lexer} {u : Turn}
    {t : Token} (h : l.Passed source before past) (hnext : l.next = .ok u)
    (ht : u.reply = .ok t) :
    (LineTable.ofText source).line? (t.span.line - 1) =
      some (Line.ofText (Text.byteSize (Text.fullLines before))
        (Text.lastLine before ++ l.rest)) := by
  have hline : t.span.line - 1 = before.count '\n' := by
    obtain ⟨stop, hspan⟩ := replySpan_of_next hnext
    rw [ht] at hspan
    rw [show t.span = l.spanTo stop from hspan]
    change l.mark.line - 1 = _
    rw [h.stands.mark_eq]
    exact Nat.add_sub_cancel_left 1 _
  rw [hline, ← h.stands.append_rest]
  exact LineTable.line?_count before l.rest

/-! ## Newlines behind lines without code -/

/-- A visible newline outside brackets and behind no continuation is in the middle of a line. -/
theorem Lexer.Passed.of_visible_newline {source before : Text} {past : List Token} {l : Lexer}
    {u : Turn} {t : Token} (h : l.Passed source before past) (hnext : l.next = .ok u)
    (ht : u.reply = .ok t) (hvisible : t.visible = true) (hkind : t.kind = .layout .newline)
    (hcontinuation : past.getLast?.any (·.kind = .layout .continuation) = false) :
    Token.depth past = 0 ∧ Text.lastLine before ≠ [] := by
  rw [visible_of_next hnext ht, hkind] at hvisible
  have hends : l.surroundings.endsLine = true := hvisible
  have hafter : l.surroundings.afterContinuation = false :=
    h.follows.afterContinuation.trans hcontinuation
  rw [← Bool.not_eq_false, Surroundings.endsLine_eq_false_iff] at hends
  constructor
  · rw [← h.inBrackets_eq_false_iff, ← Bool.not_eq_true]
    exact fun hbrackets => hends ⟨hafter, .inr hbrackets⟩
  · intro hline
    exact hends ⟨hafter, .inl (h.lineStart_iff.mpr hline)⟩

/-- A newline in the middle of a line without code ends a line that holds none, and a form feed
follows the indentation of the line. -/
theorem Lexer.Passed.feeds_of_newline {source before : Text} {past : List Token} {l : Lexer}
    {u : Turn} {t : Token} (h : l.Passed source before past) (hbare : Bare past before l.rest)
    (hline : Text.lastLine before ≠ []) (hnext : l.next = .ok u) (ht : u.reply = .ok t)
    (hkind : t.kind = .layout .newline) (start : Nat) :
    (Line.ofText start (Text.lastLine before ++ l.rest)).isBare = true ∧
      (Line.ofText start (Text.lastLine before ++ l.rest)).feeds = true := by
  have heof : t.isEof = false := by simp [Token.isEof, hkind]
  obtain ⟨r, hwhole, hne, -, hlays, -, -⟩ := h.token hnext ht heof
  obtain ⟨⟨onward, hbreak, honward⟩, -⟩ := hlays.of_newline hkind
  rw [← hwhole] at hbare ⊢
  have hopened := hbare.opened_of_ne_nil hline (List.append_ne_nil_of_left_ne_nil hne _)
  refine ⟨Line.isBare_ofText start hopened.isBare (Text.not_mem_lastLine before) hbreak honward,
    Line.feeds_ofText start ?_⟩
  rcases hopened.feeds with ⟨hdrop, hzero, -⟩ | hfeed
  · rw [hdrop]
    rcases honward with heq | heq
    · rw [heq] at hzero
      omega
    · rw [heq]
      rfl
  · exact hfeed

/-- **A line without code does not end a logical line**, unless a form feed follows its indentation:
in front of a visible newline there is a visible token that is none, if no continuation is hidden in
between. -/
theorem exists_lastVisible?_of_newline {source : Text} {tokens : List Token}
    (h : tokenize source = .ok (.ok tokens)) {i : Nat} (hi : i < tokens.length)
    (hvisible : tokens[i].visible = true) (hkind : tokens[i].kind = .layout .newline)
    (htail : ∀ t ∈ Token.hiddenTail (tokens.take i), t.kind ≠ .layout .continuation)
    (hfeeds : ∀ line, (LineTable.ofText source).line? (tokens[i].span.line - 1) = some line →
      line.isBare = true → line.feeds = false) :
    ∃ t, Token.lastVisible? (tokens.take i) = some t ∧ t.kind ≠ .layout .newline := by
  by_contra hnone
  have hlast : ∀ t ∈ Token.lastVisible? (tokens.take i), t.kind = .layout .newline := by
    intro t ht
    by_contra hne
    exact hnone ⟨t, ht, hne⟩
  have hcontinuation := Token.getLast?_any_continuation hlast htail
  obtain ⟨k, v, hrun, hv, hreply⟩ := exists_run_take_of_tokenize h hi
  obtain ⟨front, hfront⟩ := (Lexer.passed_ofSource source).run hrun
  rw [List.nil_append] at hfront
  obtain ⟨hdepth, -⟩ := hfront.of_visible_newline hv hreply hvisible hkind hcontinuation
  obtain ⟨l, u, before, hnext, ht, hpassed, hbare⟩ :=
    exists_bare_of_tokenize h hi hlast htail hdepth
  obtain ⟨-, hline⟩ := hpassed.of_visible_newline hnext ht hvisible hkind hcontinuation
  obtain ⟨hcodeless, hfeed⟩ := hpassed.feeds_of_newline hbare hline hnext ht hkind _
  have hfalse := hfeeds _ (hpassed.line?_eq hnext ht) hcodeless
  rw [hfeed] at hfalse
  contradiction

/-- Two lines without code, the first with a form feed, and a line with a form feed in front of
code: only that one ends a logical line. -/
theorem exists_lastVisible?_of_newline_form_feed :
    ∃ tokens, tokenize ['\x0c', '\n', ' ', '\t', '\n', '\x0c', 'x', '\n'] = .ok (.ok tokens) ∧
      tokens.map (·.visible) = [false, false, false, true, true, true] ∧
      ∃ t, Token.lastVisible? (tokens.take 4) = some t ∧ t.kind ≠ .layout .newline := by
  have h : tokenize ['\x0c', '\n', ' ', '\t', '\n', '\x0c', 'x', '\n'] = .ok (.ok [
      ⟨.layout .newline, ['\x0c', '\n'], ⟨0, 2, 1, 0, ⟨0⟩⟩, false⟩,
      ⟨.layout .indentation, List.replicate 8 ' ', ⟨2, 5, 2, 0, ⟨0⟩⟩, false⟩,
      ⟨.layout .blank, ['\x0c'], ⟨5, 6, 3, 0, ⟨0⟩⟩, false⟩,
      ⟨.name, ['x'], ⟨6, 7, 3, 1, ⟨0⟩⟩, true⟩,
      ⟨.layout .newline, ['\n'], ⟨7, 8, 3, 2, ⟨0⟩⟩, true⟩,
      ⟨.eof, [], ⟨8, 8, 4, 0, ⟨0⟩⟩, true⟩]) := by decide +kernel
  refine ⟨_, h, rfl, exists_lastVisible?_of_newline h (i := 4) (by decide) rfl rfl (by decide) ?_⟩
  intro line hline hbare
  obtain rfl := Option.some.inj hline
  contradiction

/-- A form feed behind the indentation of a line without code: its newline is visible, with no
visible token in front of it. -/
theorem blank_line_with_form_feed_ends_line :
    ∃ tokens t, tokenize [' ', '\x0c', '\n'] = .ok (.ok tokens) ∧ tokens[1]? = some t ∧
      t.visible = true ∧ t.kind = .layout .newline ∧
      (∀ s ∈ Token.hiddenTail (tokens.take 1), s.kind ≠ .layout .continuation) ∧
      Token.lastVisible? (tokens.take 1) = none := by
  have h : tokenize [' ', '\x0c', '\n'] = .ok (.ok [
      ⟨.layout .indentation, [' '], ⟨0, 1, 1, 0, ⟨0⟩⟩, false⟩,
      ⟨.layout .newline, ['\x0c', '\n'], ⟨1, 3, 1, 1, ⟨0⟩⟩, true⟩,
      ⟨.eof, [], ⟨3, 3, 2, 0, ⟨0⟩⟩, true⟩]) := by decide +kernel
  exact ⟨_, _, h, rfl, rfl, rfl, by decide, rfl⟩

end Lexis
