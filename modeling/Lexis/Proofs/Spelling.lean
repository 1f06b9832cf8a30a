import Lexis.Proofs.CodeExtent
import Lexis.Proofs.LayoutGrammar
import Lexis.Proofs.Session

/-!
# Symbols and unrecognized characters

Symbols come last in the choice of a rule: one is read where nothing else starts, and where no
symbol is spelled either, the character is reported as unrecognized. Some spellings start others,
and one, `!=`, has no spelling in front of its last character. A backslash is unrecognized as well
if no line break is behind it, and so is a carriage return without a line feed.

* `Symbol.spellings`: the grammar of symbols. `Symbol.isLongest_of_read?` says that the longest
  spelling is read, and `Symbol.read?_spelling` that a spelling is that of one symbol.
* `Grammar.nonSymbol`: what everything else starts with.
* `Unrecognized`: the characters that no rule takes.
* `scan_of_unrecognized`, `unrecognized_of_scan`: they are refused, and no other rule refuses a
  character.
* `Lexer.ReadsSymbol`: a lexer follows the grammar. `Lexer.readsSymbol_of_reachable` says this of
  the lexers of a session.
-/

namespace Lexis

open Grammar

/-! ## Spellings -/

namespace Symbol

/-- The words of the grammar of symbols. -/
def spellings : Language Char := {w | ∃ s : Symbol, s.spelling.toList = w}

theorem spelling_mem (s : Symbol) : s.spelling.toList ∈ spellings := ⟨s, rfl⟩

/-- A spelling is read as the symbol that it spells. -/
theorem read?_spelling (s : Symbol) : read? s.spelling.toList = some s := by cases s <;> decide

theorem spelling_inj {s z : Symbol} (h : s.spelling.toList = z.spelling.toList) : s = z := by
  have hread := read?_spelling s
  rw [h, read?_spelling] at hread
  exact (Option.some.inj hread).symm

theorem read?_eq_none_iff {t : Text} : read? t = none ↔ ¬ Starts spellings t := by
  simp only [read?, List.find?_eq_none, List.isPrefixOf_iff_prefix]
  constructor
  · rintro h ⟨_, ⟨s, rfl⟩, hprefix⟩
    exact h s s.mem_longestFirst hprefix
  · exact fun h s _ hprefix => h ⟨_, spelling_mem s, hprefix⟩

theorem pairwise_longestFirst : longestFirst.Pairwise fun s z =>
    z.spelling.toList.length ≤ s.spelling.toList.length := by decide

/-- **The longest spelling is read.** -/
theorem isLongest_of_read? {t : Text} {s : Symbol} (h : read? t = some s) :
    IsLongest spellings t s.spelling.toList := by
  refine ⟨spelling_mem s, spelling_isPrefix_of_read? h, ?_⟩
  rintro _ ⟨z, rfl⟩ hprefix
  obtain ⟨-, longer, shorter, hlist, hnone⟩ := List.find?_eq_some_iff_append.mp h
  have hmem := z.mem_longestFirst
  have hpairwise := pairwise_longestFirst
  rw [hlist] at hmem hpairwise
  rcases List.mem_append.mp hmem with hlonger | hbehind
  · have hno := hnone z hlonger
    rw [List.isPrefixOf_iff_prefix.mpr hprefix] at hno
    contradiction
  · rcases List.mem_cons.mp hbehind with rfl | hshorter
    · exact Nat.le_refl _
    · exact List.rel_of_pairwise_cons (List.pairwise_append.mp hpairwise).2.1 hshorter

/-- No symbol is spelled with a backslash or a carriage return. -/
theorem not_starts_spellings {c : Char} (hc : c = '\\' ∨ c = '\r') (t : Text) :
    ¬ Starts spellings (c :: t) := by
  rintro ⟨_, ⟨s, rfl⟩, hprefix⟩
  have hhead : s.spelling.toList.head? ≠ some '\\' ∧ s.spelling.toList.head? ≠ some '\r' := by
    cases s <;> decide
  obtain ⟨d, spelling, hspelling⟩ := List.exists_cons_of_ne_nil s.spelling_ne_nil
  rw [hspelling] at hprefix hhead
  obtain ⟨rfl, -⟩ := List.cons_prefix_cons.mp hprefix
  rcases hc with rfl | rfl
  · exact hhead.1 rfl
  · exact hhead.2 rfl

end Symbol

/-! ## Where symbols are read -/

/-- Starts something other than a symbol, whatever is behind it. -/
def isNonSymbol (c : Char) : Bool :=
  isBlank c || c = '#' || isQuote c || isIdentStart c || c.isDigit

/-- What space, comments, literals, words, numbers and newlines start with. -/
def Grammar.nonSymbol : Language Char :=
  one isNonSymbol + {['.']} * one Char.isDigit + Grammar.lineBreak

theorem isTelling_eq_false_iff {c : Char} :
    isTelling c = false ↔ isNonSymbol c = false ∧ c ≠ '\\' := by
  simp only [isTelling, isNonSymbol, Bool.or_eq_false_iff, decide_eq_false_iff_not]
  tauto

/-- The tests of the rules: a newline starts with a form feed or with a line break. -/
theorem starts_nonSymbol_iff {c : Char} {t : Text} : Starts nonSymbol (c :: t) ↔
    isNonSymbol c = true ∨ startsFraction (c :: t) = true ∨ 0 < Rule.newlines (c :: t) := by
  rw [← starts_formBreak_iff]
  constructor
  · rintro ⟨w, (hw | hw) | hw, hprefix⟩
    · exact .inl (starts_one_iff.mp ⟨w, hw, hprefix⟩)
    · obtain ⟨_, rfl, _, ⟨d, hd, rfl⟩, rfl⟩ := hw
      exact .inr (.inl ((Rule.startsFraction_iff _).mpr ⟨d, hd, hprefix⟩))
    · exact .inr (.inr ⟨w, ⟨[], .inl rfl, w, hw, rfl⟩, hprefix⟩)
  · rintro (hc | hpoint | ⟨_, ⟨front, hfront, feed, hfeed, rfl⟩, hprefix⟩)
    · exact ⟨[c], .inl (.inl ⟨c, hc, rfl⟩), by simp⟩
    · obtain ⟨d, hd, hprefix⟩ := (Rule.startsFraction_iff _).mp hpoint
      exact ⟨['.', d], .inl (.inr ⟨['.'], rfl, [d], ⟨d, hd, rfl⟩, rfl⟩), hprefix⟩
    · rcases hfront with rfl | rfl
      · exact ⟨feed, .inr hfeed, hprefix⟩
      · obtain ⟨rfl, -⟩ := List.cons_prefix_cons.mp hprefix
        exact ⟨['\x0c'], .inl (.inl ⟨'\x0c', rfl, rfl⟩), by simp⟩

/-- The rule for symbols is the one that is left. -/
theorem not_starts_nonSymbol_iff {c : Char} {t : Text} : ¬ Starts nonSymbol (c :: t) ↔
    isNonSymbol c = false ∧ startsFraction (c :: t) = false ∧ Rule.newlines (c :: t) = 0 := by
  rw [starts_nonSymbol_iff, not_or, not_or, Bool.not_eq_true, Bool.not_eq_true, Nat.not_lt,
    Nat.le_zero]

/-- **Where nothing else starts, a symbol is looked for.** -/
theorem scan_of_not_starts {c : Char} {t : Text} (hstart : ¬ Starts nonSymbol (c :: t))
    (hslash : c ≠ '\\') (s : Surroundings) : scan s c t = Rule.symbol c (c :: t) := by
  obtain ⟨hc, hpoint, hbreak⟩ := not_starts_nonSymbol_iff.mp hstart
  exact scan_of_symbol hbreak (isTelling_eq_false_iff.mpr ⟨hc, hslash⟩) hpoint

/-- The spelling that is read is taken. -/
theorem symbol_of_read? {c : Char} {t rest : Text} {s : Symbol}
    (h : Symbol.read? (c :: t) = some s) (hspelling : s.spelling.toList ++ rest = c :: t) :
    Rule.symbol c (c :: t) = .accept (.symbol s) true ⟨s.spelling.toList, rest⟩ := by
  rw [Rule.symbol_cons, h, ← hspelling]
  exact congrArg (Scan.accept _ _) (Reading.skip_append rfl)

/-! ## Characters that no rule takes -/

/-- No rule takes the character `c` in front of `t`. -/
inductive Unrecognized (c : Char) (t : Text) : Prop
  /-- A backslash in front of something other than a line break. -/
  | backslash (hc : c = '\\') (hne : t ≠ []) (hbreak : ¬ Starts Grammar.lineBreak t)
  /-- A carriage return without a line feed behind it. -/
  | carriageReturn (hc : c = '\r') (hfeed : t.head? ≠ some '\n')
  /-- A character that starts nothing else and no symbol. -/
  | other (hstart : ¬ Starts nonSymbol (c :: t)) (hslash : c ≠ '\\') (hfeed : c ≠ '\n')
      (hnone : ¬ Starts Symbol.spellings (c :: t))

/-- The character that is next is refused. -/
def Scan.refusal (c : Char) (t : Text) : Scan :=
  .reject (.unrecognized c) ((Reading.start (c :: t)).skip 1)

theorem symbol_of_not_starts {c : Char} {t : Text} (h : ¬ Starts Symbol.spellings (c :: t)) :
    Rule.symbol c (c :: t) = .refusal c t := by
  rw [Rule.symbol_cons, Symbol.read?_eq_none_iff.mpr h]
  rfl

/-- A backslash is refused in front of a text that does not start with a line break. -/
theorem continuation_of_not_starts {t : Text} (hne : t ≠ [])
    (hbreak : ¬ Starts Grammar.lineBreak t) :
    Rule.continuation ('\\' :: t) = .refusal '\\' t := by
  rw [starts_lineBreak_iff, Nat.not_lt, Nat.le_zero] at hbreak
  have hzero := Rule.lineBreak_eq_zero_of_lineBreaks hbreak
  obtain ⟨d, t, rfl⟩ := List.exists_cons_of_ne_nil hne
  simp [Rule.continuation, Reading.start, Reading.skip, hzero, Scan.refusal]

/-- **What no rule takes is refused.** -/
theorem scan_of_unrecognized {c : Char} {t : Text} (h : Unrecognized c t) (s : Surroundings) :
    scan s c t = .refusal c t := by
  cases h with
  | backslash hc hne hbreak =>
    subst hc
    rw [(Choice.continuation rfl).scan_eq, continuation_of_not_starts hne hbreak]
  | carriageReturn hc hfeed =>
    subst hc
    have hbreak : Rule.newlines ('\r' :: t) = 0 := by
      unfold Rule.newlines
      split <;> simp_all
    rw [scan_of_not_starts (not_starts_nonSymbol_iff.mpr ⟨rfl, rfl, hbreak⟩) (by decide),
      symbol_of_not_starts (Symbol.not_starts_spellings (.inr rfl) t)]
  | other hstart hslash hfeed hnone =>
    rw [scan_of_not_starts hstart hslash, symbol_of_not_starts hnone]

/-! ## No other rule refuses a character -/

/-- The rule does not fail, or fails for another cause. -/
def Scan.Recognizes (r : Scan) : Prop := ∀ d, r.result ≠ .error (.unrecognized d)

namespace Rule

theorem recognizes_integer (r : Reading) : (integer r).Recognizes := by
  intro d
  unfold integer
  split
  · simp [Scan.accept]
  · split <;> simp [Scan.accept]

theorem recognizes_float (r : Reading) : (float r).Recognizes := by
  intro d
  unfold float
  split
  · simp [Scan.reject]
  · split <;> simp [Scan.accept]

theorem recognizes_number (t : Text) : (number t).Recognizes := by
  unfold number hexInteger decimal
  dsimp only
  split
  · split
    · exact recognizes_integer _
    · simp [Scan.Recognizes, Scan.reject]
  · split
    · split
      · exact recognizes_float _
      · simp [Scan.Recognizes, Scan.reject]
    · split
      · exact recognizes_float _
      · exact recognizes_integer _

theorem recognizes_stringLiteral (n : Nat) (t : Text) : (stringLiteral n t).Recognizes := by
  have hclose : ∀ (form : QuoteForm) (r : Reading) (e : Ending),
      (closeLiteral form r e).Recognizes := by
    intro form r e
    cases e <;> simp [Scan.Recognizes, closeLiteral, Scan.accept, Scan.reject]
  unfold stringLiteral
  dsimp only
  split
  · exact hclose _ _ _
  · exact hclose _ _ _

theorem recognizes_comment (lineStart : Bool) (t : Text) : (comment lineStart t).Recognizes := by
  unfold comment
  split <;> simp [Scan.Recognizes, lineComment, Scan.accept]

theorem recognizes_lineSpace (inBrackets : Bool) (t : Text) :
    (lineSpace inBrackets t).Recognizes := by
  unfold lineSpace
  dsimp only
  split
  · simp [Scan.Recognizes, lineComment, Scan.accept]
  · split <;> simp [Scan.Recognizes, indentation, Scan.accept]

end Rule

/-- **What is refused is what no rule takes.** -/
theorem unrecognized_of_scan {s : Surroundings} {c d : Char} {t : Text}
    (h : (scan s c t).result = .error (.unrecognized d)) : d = c ∧ Unrecognized c t := by
  have hchoice := choice_scan s c t
  generalize scan s c t = r at h hchoice
  cases hchoice with
  | newline hbreak => simp [Rule.newline, Scan.accept] at h
  | lineSpace hstart hc => exact absurd h (Rule.recognizes_lineSpace _ _ d)
  | blank hbreak hc hindent => simp [Rule.blank, Scan.accept] at h
  | comment hc => exact absurd h (Rule.recognizes_comment _ _ d)
  | continuation hc =>
    subst hc
    by_cases hbreak : Starts Grammar.lineBreak t
    · obtain ⟨w, hw, rest, rfl⟩ := hbreak
      rcases mem_lineBreak.mp hw with rfl | rfl <;>
        simp [Rule.continuation, Rule.lineBreak, Reading.start, Reading.skip, Scan.accept] at h
    · by_cases hne : t = []
      · subst hne
        simp [Rule.continuation, Rule.lineBreak, Reading.start, Reading.skip, Scan.reject] at h
      · rw [continuation_of_not_starts hne hbreak] at h
        exact ⟨(Cause.unrecognized.inj (Except.error.inj h)).symm, .backslash rfl hne hbreak⟩
  | code hcode =>
    cases hcode with
    | quoted hc => exact absurd h (Rule.recognizes_stringLiteral _ _ d)
    | prefixed hn => exact absurd h (Rule.recognizes_stringLiteral _ _ d)
    | word hnone hc => simp [Rule.word, Scan.accept] at h
    | number hc => exact absurd h (Rule.recognizes_number _ d)
    | symbol hbreak hc hpoint =>
      obtain ⟨hc, hslash⟩ := isTelling_eq_false_iff.mp hc
      have hfeed : c ≠ '\n' := by
        rintro rfl
        simp [Rule.newlines] at hbreak
      cases hread : Symbol.read? (c :: t) with
      | some s => simp [Rule.symbol_cons, hread, Scan.accept] at h
      | none =>
        rw [symbol_of_not_starts (Symbol.read?_eq_none_iff.mp hread)] at h
        refine ⟨(Cause.unrecognized.inj (Except.error.inj h)).symm, .other ?_ hslash hfeed ?_⟩
        · exact not_starts_nonSymbol_iff.mpr ⟨hc, hpoint, hbreak⟩
        · exact Symbol.read?_eq_none_iff.mp hread

/-! ## Sessions -/

namespace Lexer

/-- What a lexer answers is what the grammar of symbols says. -/
structure ReadsSymbol (l : Lexer) (u : Turn) : Prop where
  /-- Where nothing else starts, the longest spelling is the token, and the one symbol that it
  spells is its kind. -/
  token : ¬ Starts nonSymbol l.rest → Starts Symbol.spellings l.rest → ∃ t s, u.reply = .ok t ∧
    t.visible = true ∧ IsLongest Symbol.spellings l.rest t.text ∧ t.kind = .symbol s ∧
    (∀ z : Symbol, z.spelling.toList = t.text ↔ z = s) ∧ l.rest = t.text ++ u.lexer.rest
  /-- The first character is refused exactly if no rule takes it. -/
  unrecognized : ∀ c, u.reply = .error ⟨.unrecognized c, l.spanTo (l.mark.offset + c.utf8Size)⟩ ↔
    ∃ t, l.rest = c :: t ∧ Unrecognized c t
  /-- There is no such error with another span. -/
  span_eq : ∀ e c, u.reply = .error e → e.cause = .unrecognized c →
    e.span = l.spanTo (l.mark.offset + c.utf8Size)

/-- A refused character is the span of its error. -/
theorem reply_of_unrecognized {l : Lexer} {u : Turn} {c : Char} {t : Text} (hrest : l.rest = c :: t)
    (h : Unrecognized c t) (hnext : l.next = .ok u) :
    u.reply = .error ⟨.unrecognized c, l.spanTo (l.mark.offset + c.utf8Size)⟩ := by
  have hscan := scan_of_unrecognized h l.surroundings
  obtain ⟨⟨cause, span⟩, stop, hreply, hcause, hstop, hspan⟩ :=
    exists_error_of_scan hrest hnext (by rw [hscan]; rfl)
  rw [hscan] at hstop
  have hoffset : stop.offset = l.mark.offset + c.utf8Size := by
    rw [Mark.offset_of_advance hstop]
    simp [Scan.refusal, Reading.skip, Reading.start]
  obtain rfl : cause = .unrecognized c := hcause
  obtain rfl : span = l.spanTo stop.offset := hspan
  rw [hreply, hoffset]

theorem unrecognized_of_reply {l : Lexer} {u : Turn} {e : LexError} {c : Char}
    (hnext : l.next = .ok u) (he : u.reply = .error e) (hcause : e.cause = .unrecognized c) :
    ∃ t, l.rest = c :: t ∧ Unrecognized c t := by
  cases answers_of_next hnext with
  | eof hrest => contradiction
  | token hrest hstop hlexeme hcontext => contradiction
  | @error d t cause stop hrest hstop hresult =>
    obtain rfl := Except.error.inj he
    obtain rfl : cause = .unrecognized c := hcause
    obtain ⟨rfl, h⟩ := unrecognized_of_scan hresult
    exact ⟨t, hrest, h⟩

/-- Where nothing else starts, the longest spelling becomes the token. -/
theorem exists_symbol_of_next {l : Lexer} {u : Turn} (hstart : ¬ Starts nonSymbol l.rest)
    (hsymbol : Starts Symbol.spellings l.rest) (hnext : l.next = .ok u) : ∃ t s, u.reply = .ok t ∧
    t.visible = true ∧ IsLongest Symbol.spellings l.rest t.text ∧ t.kind = .symbol s ∧
    (∀ z : Symbol, z.spelling.toList = t.text ↔ z = s) ∧ l.rest = t.text ++ u.lexer.rest := by
  cases hrest : l.rest with
  | nil =>
    obtain ⟨_, ⟨s, rfl⟩, hprefix⟩ := hsymbol
    rw [hrest, List.prefix_nil] at hprefix
    exact absurd hprefix s.spelling_ne_nil
  | cons c t =>
    rw [hrest] at hstart hsymbol
    have hslash : c ≠ '\\' := by
      rintro rfl
      exact Symbol.not_starts_spellings (.inl rfl) t hsymbol
    have hscan := scan_of_not_starts hstart hslash l.surroundings
    cases hread : Symbol.read? (c :: t) with
    | none => exact absurd hsymbol (Symbol.read?_eq_none_iff.mp hread)
    | some s =>
      have hlongest := Symbol.isLongest_of_read? hread
      obtain ⟨rest, hspelling⟩ := hlongest.isPrefix
      rw [symbol_of_read? hread hspelling] at hscan
      obtain ⟨token, hreply, hkind, hvisible, htext, hleft⟩ :=
        exists_token_of_scan hrest hnext (by rw [hscan]; rfl)
      replace htext : token.text = s.spelling.toList := htext
      rw [hscan] at hleft
      refine ⟨token, s, hreply, hvisible, htext ▸ hlongest, hkind, fun z => ?_, ?_⟩
      · rw [htext]
        exact ⟨Symbol.spelling_inj, fun h => h ▸ rfl⟩
      · rw [htext, hleft]
        exact hspelling.symm

/-- **Symbols are the longest spellings, and what is refused is what no rule takes**: in every state
of a session on a source of less than `2 ^ 29` bytes the answer of the lexer is the one that the
grammar of symbols says. -/
theorem readsSymbol_of_reachable {source : Text} {file : FileId} {l : Lexer}
    (hsize : Text.byteSize source < 2 ^ 29) (h : Reachable source file l) :
    ∃ u, l.next = .ok u ∧ ReadsSymbol l u := by
  obtain ⟨before, hstands⟩ := h.stands
  obtain ⟨u, hnext⟩ := hstands.exists_next hsize
  refine ⟨u, hnext, fun hstart hsymbol => exists_symbol_of_next hstart hsymbol hnext, ?_, ?_⟩
  · intro c
    constructor
    · exact fun he => unrecognized_of_reply hnext he rfl
    · rintro ⟨t, hrest, hc⟩
      exact reply_of_unrecognized hrest hc hnext
  · intro e c he hcause
    obtain ⟨t, hrest, hc⟩ := unrecognized_of_reply hnext he hcause
    rw [reply_of_unrecognized hrest hc hnext] at he
    rw [← Except.error.inj he]

/-- Three characters are one symbol, and the fourth starts no symbol without an equals sign. -/
theorem readsSymbol_of_reachable_bang :
    Text.byteSize ['*', '*', '=', '!', '*'] < 2 ^ 29 ∧
      ∃ l m u v, Reachable ['*', '*', '=', '!', '*'] ⟨3⟩ l ∧
        Reachable ['*', '*', '=', '!', '*'] ⟨3⟩ m ∧
        l.next = .ok u ∧
        u.reply = .ok ⟨.symbol .doubleStarEqual, ['*', '*', '='], ⟨0, 3, 1, 0, ⟨3⟩⟩, true⟩ ∧
        ReadsSymbol l u ∧ m.next = .ok v ∧
        v.reply = .error ⟨.unrecognized '!', ⟨3, 4, 1, 3, ⟨3⟩⟩⟩ ∧ ReadsSymbol m v := by
  have hsize : Text.byteSize ['*', '*', '=', '!', '*'] < 2 ^ 29 := by decide
  have hcall : (ofSource ['*', '*', '=', '!', '*'] ⟨3⟩).call .next =
      .ok (_, ⟨⟨3⟩, ['!', '*'], ⟨3, 1, 3⟩, ⟨0, false, false, 0⟩, 1, false, false⟩) := rfl
  have hstart : Reachable ['*', '*', '=', '!', '*'] ⟨3⟩ _ := .start
  have hnext := hstart.call hcall
  obtain ⟨u, hu, hreads⟩ := readsSymbol_of_reachable hsize hstart
  obtain ⟨v, hv, hreads'⟩ := readsSymbol_of_reachable hsize hnext
  refine ⟨hsize, _, _, u, v, hstart, hnext, hu, ?_, hreads, hv, ?_, hreads'⟩
  · exact congrArg Turn.reply (Except.ok.inj hu).symm
  · exact congrArg Turn.reply (Except.ok.inj hv).symm

end Lexer

end Lexis
