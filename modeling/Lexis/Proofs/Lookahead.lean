import Lexis.Proofs.Extent
import Lexis.Proofs.Standing

/-!
# How far a lexer looks ahead

To know that a token has ended, a lexer looks at no more than three characters behind it: a form
feed, a carriage return and a line feed. So what follows a token can be exchanged for another text,
if the two have three characters in common, and also for the end of the source.

* `Text.Bars`: what a text puts an end to, another one puts an end to as well. Texts with three
  characters in common bar each other (`Text.bars_append`), and the end of the source bars
  everything (`Text.bars_nil`).
* `Extent.onto`: what is read in front of a text is read in front of one that bars it.
* `Lexer.Takes`: the answer with a token, described by what is read. `Lexer.Takes.onto` says that a
  lexer gives the same token in front of such a text.
* `Lexer.next_of_three_ahead`: three characters behind a token decide.
-/

namespace Lexis

/-! ## Texts that put an end to layout -/

/-- What `s` puts an end to, `t` puts an end to as well: whatever `t` starts with, up to three
characters of which only the last may be a line feed, `s` starts with too, and where a line ends in
front of `s`, it ends in front of `t`. -/
structure Text.Bars (s t : Text) : Prop where
  isPrefix : ∀ x : Text, x.length ≤ 3 → '\n' ∉ x.dropLast → x <+: t → x <+: s
  lineLength_eq : Rule.lineLength s = 0 → Rule.lineLength t = 0

namespace Text

open Rule

theorem bars_nil (s : Text) : s.Bars [] where
  isPrefix x _ _ hx := by
    rw [List.prefix_nil.mp hx]
    exact List.nil_prefix
  lineLength_eq _ := rfl

/-- Texts that go on differently behind three characters, or behind a line feed, start with the
same. -/
theorem isPrefix_append_of_length {p x : Text} (hp : 3 ≤ p.length ∨ '\n' ∈ p) {r r' : Text}
    (hlength : x.length ≤ 3) (hfeed : '\n' ∉ x.dropLast) (hx : x <+: p ++ r') : x <+: p ++ r := by
  rcases isPrefix_append_cases hx with hfront | ⟨y, rfl, -⟩
  · exact hfront.trans (List.prefix_append p r)
  · cases y with
    | nil => simp
    | cons d y =>
      rw [List.length_append, List.length_cons] at hlength
      have hmem := hp.resolve_left (by omega)
      rw [List.dropLast_append_of_ne_nil (by simp)] at hfeed
      exact absurd (List.mem_append_left _ hmem) hfeed

theorem bars_append {p : Text} (hp : 3 ≤ p.length ∨ '\n' ∈ p) (r r' : Text) :
    Bars (p ++ r) (p ++ r') where
  isPrefix x hlength hfeed := isPrefix_append_of_length hp hlength hfeed
  lineLength_eq h := by
    rw [lineLength_eq_zero_iff, lineBreaks_pos_iff] at h ⊢
    have hne : p ++ r ≠ [] := by
      rintro hnil
      obtain ⟨rfl, -⟩ := List.append_eq_nil_iff.mp hnil
      simp at hp
    refine .inr ((h.resolve_left hne).imp ?_ ?_)
    · exact isPrefix_append_of_length hp (by decide) (by decide)
    · exact isPrefix_append_of_length hp (by decide) (by decide)

namespace Bars

variable {s t : Text}

theorem curbs (h : s.Bars t) : s.Curbs t :=
  fun x hlength hn _ => h.isPrefix x hlength fun hmem => hn (List.dropLast_subset _ hmem)

/-- Behind the same text the one starts with no more than the other. -/
theorem isPrefix_append (h : s.Bars t) (front : Text) {x : Text} (hlength : x.length ≤ 3)
    (hfeed : '\n' ∉ x.dropLast) (hx : x <+: front ++ t) : x <+: front ++ s := by
  rcases isPrefix_append_cases hx with hfront | ⟨y, rfl, hy⟩
  · exact hfront.trans (List.prefix_append front s)
  · rw [List.length_append] at hlength
    refine (List.prefix_append_right_inj front).mpr (h.isPrefix y (by omega) ?_ hy)
    cases y with
    | nil => exact List.not_mem_nil
    | cons d y =>
      rw [List.dropLast_append_of_ne_nil (by simp)] at hfeed
      exact fun hmem => hfeed (List.mem_append_right _ hmem)

/-- No newline starts in front of `t` that does not start in front of `s`, -/
theorem newlines_eq_zero (h : s.Bars t) (front : Text) (hzero : newlines (front ++ s) = 0) :
    newlines (front ++ t) = 0 := by
  refine Nat.eq_zero_of_not_pos fun hpos => ?_
  obtain ⟨x, hx, hprefix⟩ := (newlines_pos_iff _).mp hpos
  have hall : ∀ x ∈ newlineStarts, x.length ≤ 3 ∧ '\n' ∉ x.dropLast := by decide
  obtain ⟨hlength, hfeed⟩ := hall x hx
  have := (newlines_pos_iff _).mpr ⟨x, hx, h.isPrefix_append front hlength hfeed hprefix⟩
  omega

/-- no line break, -/
theorem lineBreaks_eq_zero (h : s.Bars t) (hzero : lineBreaks s = 0) : lineBreaks t = 0 := by
  refine Nat.eq_zero_of_not_pos fun hpos => ?_
  rw [lineBreaks_pos_iff] at hpos
  have := (lineBreaks_pos_iff s).mpr
    (hpos.imp (h.isPrefix _ (by decide) (by decide)) (h.isPrefix _ (by decide) (by decide)))
  omega

/-- and no line feed. -/
theorem head?_eq (h : s.Bars t) (ht : t.head? = some '\n') : s.head? = some '\n' := by
  obtain ⟨u, rfl⟩ := List.head?_eq_some_iff.mp ht
  obtain ⟨v, rfl⟩ := h.isPrefix ['\n'] (by decide) (by decide) (by simp)
  rfl

/-- A character that does not go on in front of `s` does not in front of `t`. -/
theorem head_eq_false (h : s.Bars t) (front : Text) {p : Char → Bool}
    (hp : p '\n' = false ∧ p '\r' = false) (hs : (front ++ s).head?.any p = false) :
    (front ++ t).head?.any p = false := by
  rw [← Bool.not_eq_true] at hs ⊢
  exact fun ht => hs ((h.curbs.append front).head hp.1 hp.2 ht)

/-- A line that ends in front of `s` ends in front of `t`. -/
theorem lineLength_append (h : s.Bars t) {front : Text}
    (hs : lineLength (front ++ s) = front.length) : lineLength (front ++ t) = front.length :=
  lineLength_append_eq hs (h.lineLength_eq (lineLength_rest_eq_zero hs)) h.head?_eq

end Bars

end Text

/-! ## In front of another text -/

namespace Rule

/-- The line breaks that end a line end it in front of every text. -/
theorem lineLength_append_breaks {text breaks rest rest' : Text}
    (htext : lineLength (text ++ (breaks ++ rest)) = text.length) (hne : breaks ≠ [])
    (hbreaks : lineBreaks (breaks ++ rest') = breaks.length) :
    lineLength (text ++ (breaks ++ rest')) = text.length := by
  refine lineLength_append_eq htext ((lineLength_eq_zero_iff _).mpr (.inr ?_)) ?_
  · rw [hbreaks]
    exact List.length_pos_iff.mpr hne
  · cases breaks with
    | nil => contradiction
    | cons c breaks => exact id

end Rule

open Rule

/-- **What is read in front of a text is read in front of one that bars it.** -/
theorem Extent.onto {s : Surroundings} {front rest rest' : Text} {r : Scan}
    (h : Extent s front rest r) (hbars : rest.Bars rest') :
    Extent s front rest' (r.onto rest') := by
  cases h with
  | newline hne hbreak =>
    exact .newline hne (runs_newlines.append_eq hbreak
      (hbars.newlines_eq_zero [] (runs_newlines.eq_zero hbreak)))
  | blank hne hspace hend hbreak hindent =>
    exact .blank hne hspace (hbars.head_eq_false [] (by decide) hend)
      (hbars.newlines_eq_zero _ hbreak) hindent
  | bracketed hstart hbrackets hne hspace hend hhash =>
    exact .bracketed hstart hbrackets hne hspace (hbars.head_eq_false [] (by decide) hend)
      (hbars.head_eq_false [] (by decide) hhash)
  | @indentation space breaks _ hstart hbrackets hne hspace hend hhash hbreaks =>
    exact .indentation hstart hbrackets hne hspace (hbars.head_eq_false breaks (by decide) hend)
      (hbars.head_eq_false breaks (by decide) hhash) (runs_lineBreaks.append_eq hbreaks
        (hbars.lineBreaks_eq_zero (runs_lineBreaks.eq_zero hbreaks)))
  | @lineComment space text breaks _ hstart hspace htext hbreaks =>
    have hbreaks' := runs_lineBreaks.append_eq hbreaks
      (hbars.lineBreaks_eq_zero (runs_lineBreaks.eq_zero hbreaks))
    refine .lineComment hstart hspace ?_ hbreaks'
    by_cases hne : breaks = []
    · subst hne
      exact hbars.lineLength_append htext
    · exact lineLength_append_breaks htext hne hbreaks'
  | comment hstart htext => exact .comment hstart (hbars.lineLength_append htext)
  | continuation hfeed hspace hend =>
    exact .continuation hfeed hspace (hbars.head_eq_false [] (by decide) hend)
  | code h hread hlexeme =>
    refine .code (h.onto hread ⟨_, hlexeme⟩ hbars.curbs) ?_ hlexeme
    rw [Scan.onto, Reading.onto, hread]

/-! ## Lexers -/

namespace Lexer

/-- The answer with a lexeme that ends at the mark `stop`, where `context` is the context behind it
and `left` is what is left. -/
def answer (l : Lexer) (lexeme : Lexeme) (left : Text) (stop : Mark) (context : Context) :
    Turn where
  reply := .ok (l.tokenTo lexeme stop)
  lexer := { l with rest := left, mark := stop, context, produced := l.produced + 1 }
  events := l.tokenEvents (l.tokenTo lexeme stop)

/-- The lexer answers `u` with a token for `front` and goes on with `rest`. -/
inductive Takes (l : Lexer) (front rest : Text) : Turn → Prop
  /-- A lexeme is read, and no count outgrows its word. -/
  | lexeme {r : Scan} {lexeme : Lexeme} {stop : Mark} {context : Context}
      (hrest : l.rest = front ++ rest) (hextent : Extent l.surroundings front rest r)
      (hlexeme : r.result = .ok lexeme) (hstop : l.mark.advance front = .ok stop)
      (hindent : r.indent < Checked.wordSize)
      (hcontext : l.context.after lexeme.kind = .ok context) :
      Takes l front rest (l.answer lexeme rest stop context)

/-- A token other than the end of the input is taken. -/
theorem exists_takes_of_next {l : Lexer} {u : Turn} {t : Token} (hnext : l.next = .ok u)
    (ht : u.reply = .ok t) (heof : t.isEof = false) : ∃ front rest, l.Takes front rest u := by
  unfold next at hnext
  split at hnext
  · obtain rfl := Except.ok.inj hnext
    obtain rfl := Except.ok.inj ht
    contradiction
  · rename_i c tail hrest
    obtain ⟨stop, hstop, hindent, hresult⟩ := turn_eq_ok hnext
    split at hresult
    · rename_i lexeme hlexeme
      obtain ⟨front, rest, heq, hextent⟩ := exists_extent hlexeme
      rw [hextent.reading_eq] at hstop hresult
      dsimp only [produce] at hresult
      cases hcontext : l.context.after lexeme.kind with
      | error f =>
        rw [hcontext] at hresult
        contradiction
      | ok context =>
        rw [hcontext] at hresult
        obtain rfl := Except.ok.inj hresult
        exact ⟨front, rest, .lexeme (hrest.trans heq) hextent hlexeme hstop hindent hcontext⟩
    · rw [hresult] at ht
      contradiction

namespace Takes

variable {l : Lexer} {u : Turn} {front rest : Text}

/-- **What is taken is the answer.** -/
theorem next_eq (h : l.Takes front rest u) : l.next = .ok u := by
  cases h with
  | lexeme hrest hextent hlexeme hstop hindent hcontext =>
    cases hwhole : front ++ rest with
    | nil => exact absurd (List.append_eq_nil_iff.mp hwhole).1 hextent.front_ne_nil
    | cons c tail =>
      rw [hwhole] at hrest
      have hscan := hextent.scan_eq hwhole.symm
      simp only [next, hrest, turn, hscan, hextent.reading_eq, hstop, Checked.word_of_lt hindent,
        hlexeme, produce, hcontext, bind, Except.bind]
      rfl

theorem append_eq (h : l.Takes front rest u) : l.rest = front ++ rest ∧ u.lexer.rest = rest := by
  cases h with
  | lexeme hrest => exact ⟨hrest, rfl⟩

theorem front_ne_nil (h : l.Takes front rest u) : front ≠ [] := by
  cases h with
  | lexeme _ hextent => exact hextent.front_ne_nil

theorem isEof_eq_false (h : l.Takes front rest u) {t : Token} (ht : u.reply = .ok t) :
    t.isEof = false := by
  rw [← Bool.not_eq_true]
  intro heof
  obtain ⟨hnil, -⟩ := eq_finish_of_isEof h.next_eq ht heof
  rw [h.append_eq.1] at hnil
  exact h.front_ne_nil (List.append_eq_nil_iff.mp hnil).1

/-- The token stands for what is taken. -/
theorem spans (h : l.Takes front rest u) {source before : Text} (hstands : l.Stands source before)
    {t : Token} (ht : u.reply = .ok t) :
    t.Spans before front ∧ u.lexer.Stands source (before ++ front) := by
  obtain ⟨taken, -, hspans, hnext, -⟩ := hstands.token h.next_eq ht (h.isEof_eq_false ht)
  obtain ⟨hrest, hleft⟩ := h.append_eq
  have happend := hnext.append_rest
  rw [hleft, ← hstands.append_rest, hrest, List.append_assoc, List.append_cancel_left_eq,
    List.append_cancel_right_eq] at happend
  rw [← happend]
  exact ⟨hspans, hnext⟩

/-- **A lexer takes the same in front of another text** that bars what the first one barred, and
comes to the same place. -/
theorem onto (h : l.Takes front rest u) {rest' : Text} (hbars : rest.Bars rest') :
    { l with rest := front ++ rest' }.Takes front rest'
      { u with lexer := { u.lexer with rest := rest' } } := by
  cases h with
  | lexeme hrest hextent hlexeme hstop hindent hcontext =>
    exact .lexeme rfl (hextent.onto hbars) hlexeme hstop hindent hcontext

end Takes

/-- On a source of less than `2 ^ 29` bytes what is read is taken. -/
theorem Stands.exists_takes {source before : Text} {l : Lexer} (h : l.Stands source before)
    (hsize : Text.byteSize source < 2 ^ 29) {front rest : Text} {r : Scan} {lexeme : Lexeme}
    (hrest : l.rest = front ++ rest) (hextent : Extent l.surroundings front rest r)
    (hlexeme : r.result = .ok lexeme) :
    ∃ u t, l.Takes front rest u ∧ u.reply = .ok t ∧ t.kind = lexeme.kind ∧ t.text = lexeme.text ∧
      t.visible = lexeme.visible := by
  obtain ⟨u, hnext⟩ := h.exists_next hsize
  cases hwhole : front ++ rest with
  | nil => exact absurd (List.append_eq_nil_iff.mp hwhole).1 hextent.front_ne_nil
  | cons c tail =>
    rw [next, hrest, hwhole] at hnext
    obtain ⟨stop, hstop, hindent, hresult⟩ := turn_eq_ok hnext
    rw [hextent.scan_eq hwhole.symm] at hstop hindent hresult
    rw [hlexeme] at hresult
    obtain ⟨context, hcontext, -, -⟩ := produce_eq_ok hresult
    rw [hextent.reading_eq] at hstop
    exact ⟨_, _, .lexeme hrest hextent hlexeme hstop hindent hcontext, rfl, rfl, rfl, rfl⟩

/-- **Three characters behind a token decide**: a lexer in any state that gives a token for `a` in
front of `k` and some text, where `k` is three characters long, gives the same token in front of `k`
and any other text, and comes to the same place and context. -/
theorem next_of_three_ahead (l : Lexer) {a k r₁ : Text} (r₂ : Text) (hk : k.length = 3) {u : Turn}
    {t : Token} (hnext : { l with rest := a ++ k ++ r₁ }.next = .ok u) (ht : u.reply = .ok t)
    (hrest : u.lexer.rest = k ++ r₁) :
    { l with rest := a ++ k ++ r₂ }.next =
      .ok { u with lexer := { u.lexer with rest := k ++ r₂ } } := by
  rw [List.append_assoc] at hnext ⊢
  have heof : t.isEof = false := by
    rw [← Bool.not_eq_true]
    intro heof
    obtain ⟨hnil, -⟩ := eq_finish_of_isEof hnext ht heof
    have hlength := congrArg List.length hnil
    simp only [List.length_append, List.length_nil, hk] at hlength
    omega
  obtain ⟨front, rest, htakes⟩ := exists_takes_of_next hnext ht heof
  -- what is left tells what was taken
  obtain ⟨rfl, rfl⟩ : rest = k ++ r₁ ∧ front = a := by
    cases htakes with
    | lexeme hwhole =>
      obtain rfl : rest = k ++ r₁ := hrest
      exact ⟨rfl, (List.append_cancel_right hwhole).symm⟩
  exact (htakes.onto (Text.bars_append (.inl (Nat.le_of_eq hk.symm)) r₁ r₂)).next_eq

/-- A newline behind an open bracket, in front of a form feed and a carriage return that are no
newline. -/
theorem next_of_three_ahead_form_feed :
    ∃ u : Turn,
      Lexer.next ⟨⟨3⟩, ['\n', '\x0c', '\r', 'a', '\n'], ⟨7, 2, 5⟩, ⟨1, false, false, 0⟩, 4, false,
        false⟩ = .ok u ∧
      u.reply = .ok ⟨.layout .newline, ['\n'], ⟨7, 8, 2, 5, ⟨3⟩⟩, false⟩ ∧
      Lexer.next ⟨⟨3⟩, ['\n', '\x0c', '\r', 'a', '"'], ⟨7, 2, 5⟩, ⟨1, false, false, 0⟩, 4, false,
        false⟩ = .ok { u with lexer := { u.lexer with rest := ['\x0c', '\r', 'a', '"'] } } := by
  have hnext : Lexer.next ⟨⟨3⟩, ['\n', '\x0c', '\r', 'a', '\n'], ⟨7, 2, 5⟩, ⟨1, false, false, 0⟩, 4,
      false, false⟩ = .ok _ := rfl
  exact ⟨_, hnext, rfl,
    next_of_three_ahead ⟨⟨3⟩, [], ⟨7, 2, 5⟩, ⟨1, false, false, 0⟩, 4, false, false⟩ (a := ['\n'])
      (k := ['\x0c', '\r', 'a']) ['"'] rfl hnext rfl rfl⟩

/-- Two characters do not decide: behind a form feed and a carriage return a line feed makes the
newline longer. -/
example :
    ((ofSource ['\n', '\x0c', '\r', 'a']).next.map fun u => u.lexer.rest) =
        .ok ['\x0c', '\r', 'a'] ∧
      ((ofSource ['\n', '\x0c', '\r', '\n']).next.map fun u => u.lexer.rest) = .ok [] :=
  ⟨rfl, rfl⟩

end Lexer

end Lexis
