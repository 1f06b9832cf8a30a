import Lexis.Proofs.Layout
import Lexis.Proofs.Twin

/-!
# How far code reaches

A name, a keyword, a symbol or a literal ends where the text goes on with nothing that could be part
of it. So what follows it can be exchanged for another text, as long as the other one offers no more
to go on with: the same lexeme is read.

* `Rule.steady_word`, `Rule.steady_decimal`, `Rule.steady_literal`: the rules for words, numbers and
  string literals take the same from a twin.
* `Rule.Closes`: a closed body of a literal depends on its own characters only.
* `Rule.number_onto`, `Rule.symbol_onto`, `Rule.stringLiteral_onto`: the rules in front of another
  text.
* `CodeChoice.onto`: code is read in front of another text as before.
-/

namespace Lexis

namespace Rule

open Reading

/-! ## Words and numbers -/

theorem steady_word : Steady fun r =>
    let r := r.takeWhile isIdentContinue
    .accept (wordKind r.taken) true r :=
  (Steady.accept wordKind true).takeWhile (by decide)

theorem steady_integer : Steady integer :=
  .ite (.accept (fun _ => .literal .longInt) true)
    (.ite (.accept (fun _ => .literal .complex) true) (.accept (fun _ => .literal .int) true)
      (by decide)) (by decide)

theorem steady_float : Steady float :=
  .ite (.reject _)
    (.ite (.accept (fun _ => .literal .complex) true) (.accept (fun _ => .literal .float) true)
      (by decide)) (by decide)

/-- A number from its exponent on, where `f` goes on if there is none. -/
def exponent (f : Reading → Scan) (r : Reading) : Scan :=
  if r.sees isExponentMarker then
    let marker := exponentMarker r
    if marker.sees Char.isDigit then float (marker.takeWhile Char.isDigit)
    else .reject (.malformedNumber .missingExponentDigits) marker
  else f r

theorem steady_exponent {f : Reading → Scan} (hf : Steady f) : Steady (exponent f) := by
  have hdigits : Steady fun r => if r.sees Char.isDigit then float (r.takeWhile Char.isDigit)
      else .reject (.malformedNumber .missingExponentDigits) r :=
    steady_float.ite_takeWhile (.reject _) (by decide)
  have hsign : Steady fun r => if (r.takeIf isSign).sees Char.isDigit then
      float ((r.takeIf isSign).takeWhile Char.isDigit)
      else .reject (.malformedNumber .missingExponentDigits) (r.takeIf isSign) := by
    convert hdigits.ite hdigits (p := isSign) (by decide) using 2 with r
    unfold takeIf
    split <;> rfl
  exact hsign.ite hf (by decide)

/-- A decimal number goes on behind its digits with a point or without. -/
theorem decimal_eq (t : Text) :
    decimal t =
      let whole := (Reading.start t).takeWhile Char.isDigit
      if whole.sees (· = '.') then exponent float ((whole.skip 1).takeWhile Char.isDigit)
      else exponent integer whole := by
  unfold decimal exponent fraction
  dsimp only
  split <;> rfl

theorem steady_decimal : Steady fun r =>
    let whole := r.takeWhile Char.isDigit
    if whole.sees (· = '.') then exponent float ((whole.skip 1).takeWhile Char.isDigit)
    else exponent integer whole :=
  Steady.takeWhile (.ite ((steady_exponent steady_float).takeWhile (by decide))
    (steady_exponent steady_integer) (by decide)) (by decide)

theorem steady_hexDigits : Steady fun r =>
    if r.sees isHexDigit then integer (r.takeWhile isHexDigit)
    else .reject (.malformedNumber .missingHexDigits) r :=
  steady_integer.ite_takeWhile (.reject _) (by decide)

/-- The marker of a hexadecimal integer is two characters. -/
theorem startsHex_iff (t : Text) :
    startsHex t = true ↔ ['0', 'x'] <+: t ∨ ['0', 'X'] <+: t := by
  constructor
  · intro h
    unfold startsHex at h
    split at h
    · rcases Bool.or_eq_true_iff.mp h with hx | hx
      · left
        simp_all
      · right
        simp_all
    · contradiction
  · rintro (⟨rest, rfl⟩ | ⟨rest, rfl⟩) <;> rfl

theorem number_onto {front rest rest' : Text} (hcurbs : rest.Curbs rest')
    (hleft : (number (front ++ rest)).reading.left = rest)
    (hok : ∃ lexeme, (number (front ++ rest)).result = .ok lexeme) :
    number (front ++ rest') = (number (front ++ rest)).onto rest' := by
  have htwin := twin_start front rest rest'
  unfold number at hleft hok ⊢
  by_cases hhex : startsHex (front ++ rest) = true
  · -- the marker is a part of what is read, so both texts start with it
    rw [if_pos hhex] at hleft hok ⊢
    have hsuffix := steady_hexDigits.left_suffix ((Reading.start (front ++ rest)).skip 2)
    change (hexInteger (front ++ rest)).reading.left <:+ _ at hsuffix
    rw [hleft] at hsuffix
    have hhex' : startsHex (front ++ rest') = true := by
      refine (startsHex_iff _).mpr (((startsHex_iff _).mp hhex).imp ?_ ?_)
      · exact fun h => htwin.isPrefix h hsuffix
      · exact fun h => htwin.isPrefix h hsuffix
    have hlength : 2 ≤ (front ++ rest).length := by
      rcases (startsHex_iff _).mp hhex with h | h <;> exact h.length_le
    rw [if_pos hhex']
    exact steady_hexDigits.eq_onto hcurbs (htwin.skip hlength hsuffix) hleft hok
  · have hhex' : ¬ startsHex (front ++ rest') = true := by
      intro hpos
      refine hhex ((startsHex_iff _).mpr (((startsHex_iff _).mp hpos).imp ?_ ?_))
      · exact htwin.isPrefix_of_curbs hcurbs (by simp) (by decide) (by decide)
      · exact htwin.isPrefix_of_curbs hcurbs (by simp) (by decide) (by decide)
    rw [if_neg hhex] at hleft hok ⊢
    rw [if_neg hhex']
    rw [decimal_eq] at hleft hok ⊢
    rw [decimal_eq]
    exact steady_decimal.eq_onto hcurbs htwin hleft hok

/-! ## Symbols -/

theorem spelling_inline (s : Symbol) :
    s.spelling.toList.length ≤ 3 ∧ '\n' ∉ s.spelling.toList ∧ '\r' ∉ s.spelling.toList := by
  cases s <;> decide

/-- The longest spelling is the same if no more is offered behind it. -/
theorem read?_append {s : Symbol} {rest rest' : Text} (hcurbs : rest.Curbs rest')
    (h : Symbol.read? (s.spelling.toList ++ rest) = some s) :
    Symbol.read? (s.spelling.toList ++ rest') = some s := by
  obtain ⟨-, longer, shorter, hlist, hnone⟩ := List.find?_eq_some_iff_append.mp h
  refine List.find?_eq_some_iff_append.mpr ⟨?_, longer, shorter, hlist, fun z hz => ?_⟩
  · simp
  · have hz' := hnone z hz
    simp only [Bool.not_eq_true', ← Bool.not_eq_true, List.isPrefixOf_iff_prefix] at hz' ⊢
    obtain ⟨hlength, hn, hr⟩ := spelling_inline z
    exact fun hprefix => hz' (hcurbs.append _ _ hlength hn hr hprefix)

/-- A symbol that is read starts with the first character of a spelling. -/
theorem ne_of_symbol {c : Char} {t : Text}
    (hok : ∃ lexeme, (symbol c (c :: t)).result = .ok lexeme) : c ≠ '\n' ∧ c ≠ '\r' := by
  obtain ⟨lexeme, hlexeme⟩ := hok
  rw [symbol_cons] at hlexeme
  split at hlexeme
  · rename_i s hread
    obtain ⟨-, hn, hr⟩ := spelling_inline s
    have hprefix := Symbol.spelling_isPrefix_of_read? hread
    cases hspelling : s.spelling.toList with
    | nil => exact absurd hspelling s.spelling_ne_nil
    | cons d spelling =>
      rw [hspelling] at hprefix hn hr
      obtain ⟨rfl, -⟩ := List.cons_prefix_cons.mp hprefix
      exact ⟨fun h => hn (h ▸ List.mem_cons_self), fun h => hr (h ▸ List.mem_cons_self)⟩
  · contradiction

theorem symbol_onto {c : Char} {tail rest rest' : Text} (hcurbs : rest.Curbs rest')
    (hread : (symbol c (c :: tail ++ rest)).reading = ⟨c :: tail, rest⟩)
    (hok : ∃ lexeme, (symbol c (c :: tail ++ rest)).result = .ok lexeme) :
    symbol c (c :: tail ++ rest') = (symbol c (c :: tail ++ rest)).onto rest' := by
  simp only [List.cons_append, symbol_cons] at hread hok ⊢
  cases hsymbol : Symbol.read? (c :: (tail ++ rest)) with
  | none =>
    obtain ⟨lexeme, hlexeme⟩ := hok
    simp [hsymbol, Scan.reject] at hlexeme
  | some s =>
    -- what is taken is the spelling
    obtain ⟨behind, hbehind⟩ := Symbol.spelling_isPrefix_of_read? hsymbol
    rw [hsymbol] at hread
    simp only [Scan.reading_accept, Reading.skip, Reading.start, List.nil_append,
      Reading.mk.injEq, ← hbehind, List.take_left, List.drop_left] at hread
    obtain ⟨hspelling, rfl⟩ := hread
    have hsymbol' : Symbol.read? (c :: (tail ++ rest')) = some s := by
      rw [← hbehind] at hsymbol
      have happend := read?_append hcurbs hsymbol
      rwa [hspelling] at happend
    rw [hsymbol']
    simp [hspelling, Scan.accept, Scan.onto, Reading.onto, Reading.skip, Reading.start]

/-! ## String literals -/

theorem lineBody_cons {quote c : Char} (n : Nat) (t : Text) (hc : c ≠ '\\') :
    lineBody quote n (c :: t) =
      if c = '\n' then ⟨n, .unclosed⟩ else if c = quote then ⟨n + 1, .closed⟩
      else lineBody quote (n + 1) t := by
  cases t <;> simp [lineBody, hc]

theorem tripleBody_cons {quote c : Char} (n : Nat) (t : Text) (hc : c ≠ '\\') :
    tripleBody quote n (c :: t) =
      if startsTriple quote (c :: t) then ⟨n + 3, .closed⟩ else tripleBody quote (n + 1) t := by
  cases t <;> simp [tripleBody, hc]

/-- A backslash is always followed by a character that it takes, or by the end. -/
theorem ne_backslash {c : Char} {t : Text} (hend : c = '\\' → t = [] → False)
    (hnext : ∀ d u, c = '\\' → t = d :: u → False) : c ≠ '\\' := by
  intro hc
  cases t with
  | nil => exact hend hc rfl
  | cons d u => exact hnext d u hc rfl

theorem lt_of_lineBody {quote : Char} {n k : Nat} {t : Text}
    (h : lineBody quote n t = ⟨k, .closed⟩) : n < k := by
  have hclosed : (lineBody quote n t).ending = .closed := by rw [h]
  obtain ⟨i, hi, -⟩ := exists_lineBody_eq hclosed
  rw [h] at hi
  dsimp only at hi
  omega

/-- A closed body depends on its own characters only. -/
theorem lineBody_take_append {quote : Char} {n k : Nat} {t : Text} (rest : Text)
    (h : lineBody quote n t = ⟨n + k, .closed⟩) :
    lineBody quote n (t.take k ++ rest) = ⟨n + k, .closed⟩ := by
  fun_induction lineBody quote n t generalizing k with
  | case1 n => simp at h
  | case2 n => simp at h
  | case3 n d t ih =>
    obtain ⟨k, rfl⟩ : ∃ i, k = i + 2 := ⟨k - 2, by have := lt_of_lineBody h; omega⟩
    rw [show n + (k + 2) = n + 2 + k by omega] at h ⊢
    exact ih h
  | case4 n t => simp at h
  | case5 n t hend hnext hfeed =>
    obtain rfl : k = 1 := by simpa using h.symm
    simp [lineBody_cons n _ (ne_backslash hend hnext), hfeed]
  | case6 n c t hend hnext hfeed hquote ih =>
    obtain ⟨k, rfl⟩ : ∃ i, k = i + 1 := ⟨k - 1, by have := lt_of_lineBody h; omega⟩
    rw [show n + (k + 1) = n + 1 + k by omega] at h ⊢
    rw [List.take_succ_cons, List.cons_append, lineBody_cons n _ (ne_backslash hend hnext),
      if_neg hfeed, if_neg hquote]
    exact ih h

theorem lt_of_tripleBody {quote : Char} {n k : Nat} {t : Text}
    (h : tripleBody quote n t = ⟨k, .closed⟩) : n + 2 < k ∧ k ≤ n + t.length := by
  fun_induction tripleBody quote n t with
  | case1 n => simp at h
  | case2 n => simp at h
  | case3 n d t ih =>
    have := ih h
    simp only [List.length_cons]
    omega
  | case4 n c t _ _ htriple =>
    have := (List.isPrefixOf_iff_prefix.mp htriple).length_le
    simp at h this ⊢
    omega
  | case5 n c t _ _ _ ih =>
    have := ih h
    simp only [List.length_cons]
    omega

/-- A closed body between triple quotes depends on its own characters only. -/
theorem tripleBody_take_append {quote : Char} {n k : Nat} {t : Text} (rest : Text)
    (h : tripleBody quote n t = ⟨n + k, .closed⟩) :
    tripleBody quote n (t.take k ++ rest) = ⟨n + k, .closed⟩ := by
  fun_induction tripleBody quote n t generalizing k with
  | case1 n => simp at h
  | case2 n => simp at h
  | case3 n d t ih =>
    obtain ⟨k, rfl⟩ : ∃ i, k = i + 2 := ⟨k - 2, by have := lt_of_tripleBody h; omega⟩
    rw [show n + (k + 2) = n + 2 + k by omega] at h ⊢
    exact ih h
  | case4 n c t hend hnext htriple =>
    obtain rfl : k = 3 := by simpa using h.symm
    have htriple' : startsTriple quote ((c :: t).take 3 ++ rest) = true := by
      obtain ⟨u, hu⟩ := List.isPrefixOf_iff_prefix.mp htriple
      simp [startsTriple, ← hu]
    rw [List.take_succ_cons, List.cons_append] at htriple' ⊢
    rw [tripleBody_cons n _ (ne_backslash hend hnext), if_pos htriple']
  | case5 n c t hend hnext htriple ih =>
    obtain ⟨k, rfl⟩ : ∃ i, k = i + 1 := ⟨k - 1, by have := lt_of_tripleBody h; omega⟩
    have htriple' : ¬ startsTriple quote (c :: (t.take k ++ rest)) = true := by
      -- the closing quotes come later, so three characters are part of the body
      intro hpos
      obtain ⟨hlt, hle⟩ := lt_of_tripleBody h
      have hfront := List.prefix_of_prefix_length_le (List.isPrefixOf_iff_prefix.mp hpos)
        (List.prefix_append (c :: t.take k) rest) (by simp; omega)
      exact htriple (List.isPrefixOf_iff_prefix.mpr
        (hfront.trans (List.take_prefix (k + 1) (c :: t))))
    rw [show n + (k + 1) = n + 1 + k by omega] at h ⊢
    rw [List.take_succ_cons, List.cons_append, tripleBody_cons n _ (ne_backslash hend hnext),
      if_neg htriple']
    exact ih h

/-- The closed bodies that `body` finds depend on their own characters only. -/
def Closes (body : Text → Body) : Prop :=
  ∀ t k, body t = ⟨k, .closed⟩ →
    0 < k ∧ k ≤ t.length ∧ ∀ rest, body (t.take k ++ rest) = ⟨k, .closed⟩

theorem closes_lineBody (quote : Char) : Closes (lineBody quote 0) := by
  intro t k h
  refine ⟨lt_of_lineBody h, ?_, fun rest => ?_⟩
  · have hclosed : (lineBody quote 0 t).ending = .closed := by rw [h]
    obtain ⟨i, hi, hquote⟩ := exists_lineBody_eq hclosed
    have hlt := (List.getElem?_eq_some_iff.mp hquote).1
    rw [h] at hi
    dsimp only at hi
    omega
  · simpa using lineBody_take_append rest (h.trans (by rw [Nat.zero_add]))

theorem closes_tripleBody (quote : Char) : Closes (tripleBody quote 0) := by
  intro t k h
  obtain ⟨hlt, hle⟩ := lt_of_tripleBody h
  refine ⟨by omega, by omega, fun rest => ?_⟩
  simpa using tripleBody_take_append rest (h.trans (by rw [Nat.zero_add]))

/-- A literal behind its opening quotes. -/
def literalBody (form : QuoteForm) (body : Text → Body) (r : Reading) : Scan :=
  closeLiteral form (r.skip (body r.left).length) (body r.left).ending

/-- A lexeme comes from a closed body. -/
theorem closed_of_literalBody {form : QuoteForm} {body : Text → Body} {r : Reading}
    (hok : ∃ lexeme, (literalBody form body r).result = .ok lexeme) :
    body r.left = ⟨(body r.left).length, .closed⟩ := by
  obtain ⟨lexeme, hlexeme⟩ := hok
  unfold literalBody at hlexeme
  cases hbody : body r.left with
  | mk length ending =>
    cases ending with
    | closed => rfl
    | escape => simp [hbody, closeLiteral, Scan.reject] at hlexeme
    | unclosed => simp [hbody, closeLiteral, Scan.reject] at hlexeme

theorem steady_literalBody (form : QuoteForm) {body : Text → Body} (hbody : Closes body) :
    Steady (literalBody form body) where
  left_suffix r := by
    unfold literalBody
    rw [reading_closeLiteral]
    exact r.left_skip_suffix _
  eq_onto := by
    intro rest rest' r r' hcurbs htwin hleft hok
    have hclosed := closed_of_literalBody hok
    obtain ⟨-, hle, happend⟩ := hbody _ _ hclosed
    unfold literalBody at hleft ⊢
    rw [reading_closeLiteral] at hleft
    have hskip := (htwin.skip hle (hleft ▸ List.suffix_rfl)).eq_onto hleft
    obtain ⟨middle, hmiddle, hmiddle'⟩ := htwin.left_eq
    have hbody' : body r'.left = body r.left := by
      have hsplit := List.take_append_drop (body r.left).length r.left
      rw [show r.left.drop (body r.left).length = rest from hleft] at hsplit
      rw [hmiddle', ← List.append_cancel_right (hsplit.trans hmiddle), happend rest', ← hclosed]
    rw [hbody', hskip, hclosed]
    rfl

/-- A literal behind its letters, if it has some. -/
def literal (r : Reading) : Scan :=
  if startsTriple (openingQuote r) r.left then
    literalBody (.ofQuote (openingQuote r) true) (tripleBody (openingQuote r) 0) (r.skip 3)
  else literalBody (.ofQuote (openingQuote r) false) (lineBody (openingQuote r) 0) (r.skip 1)

theorem stringLiteral_eq (n : Nat) (t : Text) :
    stringLiteral n t = literal ((Reading.start t).skip n) := rfl

/-- What is left of a literal is behind its first quote, -/
theorem left_literal_suffix (r : Reading) : (literal r).reading.left <:+ (r.skip 1).left := by
  unfold literal
  split
  · refine ((steady_literalBody _ (closes_tripleBody _)).left_suffix _).trans ?_
    have hdrop : (r.skip 3).left = ((r.skip 1).skip 2).left := by simp [Reading.skip]
    rw [hdrop]
    exact (r.skip 1).left_skip_suffix 2
  · exact (steady_literalBody _ (closes_lineBody _)).left_suffix _

/-- and there are at least two characters in it. -/
theorem length_of_literal {r : Reading} (hok : ∃ lexeme, (literal r).result = .ok lexeme) :
    2 ≤ r.left.length := by
  unfold literal at hok
  split at hok
  · rename_i htriple
    have := (List.isPrefixOf_iff_prefix.mp htriple).length_le
    simp only [List.length_cons, List.length_nil] at this
    omega
  · obtain ⟨hpos, hle, -⟩ := closes_lineBody _ _ _ (closed_of_literalBody hok)
    simp only [Reading.skip, List.length_drop] at hle hpos
    omega

theorem steady_literal : Steady literal where
  left_suffix r := (left_literal_suffix r).trans (r.left_skip_suffix 1)
  eq_onto := by
    intro rest rest' r r' hcurbs htwin hleft hok
    have hlength := length_of_literal hok
    have hstay : rest <:+ (r.skip 1).left := hleft ▸ left_literal_suffix r
    have hquote : openingQuote r' = openingQuote r := by
      unfold openingQuote
      rw [htwin.sees_eq hcurbs (by decide) (by decide) fun _ => hstay]
    unfold literal at hleft hok ⊢
    rw [hquote]
    by_cases htriple : startsTriple (openingQuote r) r.left = true
    · rw [if_pos htriple] at hleft hok ⊢
      have hprefix := List.isPrefixOf_iff_prefix.mp htriple
      have hsuffix := (steady_literalBody (.ofQuote (openingQuote r) true)
        (closes_tripleBody (openingQuote r))).left_suffix (r.skip 3)
      have hskip := htwin.skip hprefix.length_le (hleft ▸ hsuffix)
      have htriple' : startsTriple (openingQuote r) r'.left = true :=
        List.isPrefixOf_iff_prefix.mpr (htwin.isPrefix hprefix (hleft ▸ hsuffix))
      rw [if_pos htriple']
      exact (steady_literalBody _ (closes_tripleBody _)).eq_onto hcurbs hskip hleft hok
    · rw [if_neg htriple] at hleft hok ⊢
      have htriple' : ¬ startsTriple (openingQuote r) r'.left = true := by
        intro hpos
        refine htriple (List.isPrefixOf_iff_prefix.mpr ?_)
        refine htwin.isPrefix_of_curbs hcurbs (by simp) ?_ ?_ (List.isPrefixOf_iff_prefix.mp hpos)
        · simpa using (openingQuote_ne r).symm
        · unfold openingQuote
          split <;> decide
      rw [if_neg htriple']
      exact (steady_literalBody _ (closes_lineBody _)).eq_onto hcurbs
        (htwin.skip (by omega) hstay) hleft hok

theorem stringLiteral_onto {n : Nat} {front rest rest' : Text} (hcurbs : rest.Curbs rest')
    (hleft : (stringLiteral n (front ++ rest)).reading.left = rest)
    (hok : ∃ lexeme, (stringLiteral n (front ++ rest)).result = .ok lexeme) :
    stringLiteral n (front ++ rest') = (stringLiteral n (front ++ rest)).onto rest' := by
  rw [stringLiteral_eq] at hleft hok ⊢
  rw [stringLiteral_eq]
  have hlength := length_of_literal hok
  simp only [Reading.skip, Reading.start, List.length_drop] at hlength
  have hsuffix := steady_literal.left_suffix ((Reading.start (front ++ rest)).skip n)
  rw [hleft] at hsuffix
  exact steady_literal.eq_onto hcurbs
    ((twin_start front rest rest').skip (by simp only [Reading.start]; omega) hsuffix) hleft hok

/-! ## What decides on a rule for code -/

/-- The letters in front of a literal. -/
def literalPrefixes : List Text := [['u', 'r'], ['u'], ['r']]

theorem inline_of_mem_literalPrefixes {letters : Text} (h : letters ∈ literalPrefixes) {q : Char}
    (hq : isQuote q = true) :
    (letters ++ [q]).length ≤ 3 ∧ '\n' ∉ letters ++ [q] ∧ '\r' ∉ letters ++ [q] := by
  have hall : ∀ letters ∈ literalPrefixes,
      letters.length ≤ 2 ∧ '\n' ∉ letters ∧ '\r' ∉ letters := by decide
  obtain ⟨hlength, hn, hr⟩ := hall letters h
  have hqn : '\n' ≠ q := (ne_of_class hq (by decide)).symm
  have hqr : '\r' ≠ q := (ne_of_class hq (by decide)).symm
  refine ⟨?_, ?_, ?_⟩
  · rw [List.length_append, List.length_singleton]
    omega
  · simp [hn, hqn]
  · simp [hr, hqr]

/-- A prefix is one of these with a quote behind it. -/
theorem literalPrefix?_eq_some_iff {t : Text} {n : Nat} :
    literalPrefix? t = some n ↔
      ∃ letters ∈ literalPrefixes, letters.length = n ∧
        ∃ q, isQuote q = true ∧ letters ++ [q] <+: t := by
  constructor
  · intro h
    unfold literalPrefix? at h
    split at h
    · rename_i q rest
      split at h
      · exact ⟨['u', 'r'], by decide, Option.some.inj h, q, by assumption, by simp⟩
      · contradiction
    · rename_i q rest _
      split at h
      · exact ⟨['u'], by decide, Option.some.inj h, q, by assumption, by simp⟩
      · contradiction
    · rename_i q rest
      split at h
      · exact ⟨['r'], by decide, Option.some.inj h, q, by assumption, by simp⟩
      · contradiction
    · contradiction
  · rintro ⟨letters, hmem, rfl, q, hq, rest, rfl⟩
    have hr : q ≠ 'r' := ne_of_class hq (by decide)
    simp only [literalPrefixes, List.mem_cons, List.not_mem_nil, or_false] at hmem
    rcases hmem with rfl | rfl | rfl
    · simp [literalPrefix?, hq]
    · cases rest with
      | nil => simp [literalPrefix?, hq]
      | cons d rest => simp [literalPrefix?, hq, hr]
    · simp [literalPrefix?, hq]

theorem startsFraction_iff (t : Text) :
    startsFraction t = true ↔ ∃ d : Char, d.isDigit = true ∧ ['.', d] <+: t := by
  constructor
  · intro h
    unfold startsFraction at h
    split at h
    · rename_i d rest
      exact ⟨d, h, by simp⟩
    · contradiction
  · rintro ⟨d, hd, rest, rfl⟩
    exact hd

/-- A number that starts with a point takes it and a digit. -/
theorem left_number_suffix {t : Text} (h : startsFraction t = true) :
    (number t).reading.left <:+ ((Reading.start t).skip 2).left := by
  obtain ⟨d, hd, u, rfl⟩ := (startsFraction_iff t).mp h
  have hdot : Char.isDigit '.' = false := by decide
  have hwhole : (Reading.start ('.' :: d :: u)).takeWhile Char.isDigit = ⟨[], '.' :: d :: u⟩ := by
    simp [Reading.start, Reading.takeWhile, hdot]
  have hfraction : ((Reading.skip ⟨[], '.' :: d :: u⟩ 1).takeWhile Char.isDigit).left <:+ u := by
    simpa [Reading.skip, Reading.takeWhile, hd] using List.dropWhile_suffix (l := u) Char.isDigit
  change (decimal ('.' :: d :: u)).reading.left <:+ u
  rw [decimal_eq, hwhole]
  exact ((steady_exponent steady_float).left_suffix _).trans hfraction

end Rule

open Rule

theorem CodeChoice.endsInline {c : Char} {t : Text} {r : Scan} (h : CodeChoice c t r) :
    r.EndsInline := by
  cases h with
  | quoted => exact endsInline_stringLiteral _ _
  | prefixed => exact endsInline_stringLiteral _ _
  | word => exact (staysInline_word _).endsInline
  | number => exact (staysInline_number _).endsInline
  | symbol => exact (staysInline_symbol _ _).endsInline

/-- **Code is read in front of another text as before**, if the other text offers no more to go on
with. -/
theorem CodeChoice.onto {c : Char} {tail rest rest' : Text} {r : Scan}
    (h : CodeChoice c (tail ++ rest) r) (hread : r.reading = ⟨c :: tail, rest⟩)
    (hok : ∃ lexeme, r.result = .ok lexeme) (hcurbs : rest.Curbs rest') :
    CodeChoice c (tail ++ rest') (r.onto rest') := by
  have hleft : r.reading.left = rest := by rw [hread]
  have htwin := Reading.twin_start (c :: tail) rest rest'
  -- the rules read `c :: tail` in front of the two texts
  cases h with
  | quoted hc =>
    rw [← List.cons_append] at hleft hok ⊢
    rw [← stringLiteral_onto hcurbs hleft hok]
    exact .quoted hc
  | @prefixed n hn =>
    rw [← List.cons_append] at hleft hok hn ⊢
    rw [← stringLiteral_onto hcurbs hleft hok]
    refine .prefixed ?_
    obtain ⟨letters, hmem, rfl, q, hq, hletters⟩ := literalPrefix?_eq_some_iff.mp hn
    refine literalPrefix?_eq_some_iff.mpr ⟨letters, hmem, rfl, q, hq, htwin.isPrefix hletters ?_⟩
    have hsuffix := left_literal_suffix ((Reading.start (c :: tail ++ rest)).skip letters.length)
    rw [← stringLiteral_eq, hleft] at hsuffix
    simpa [Reading.skip] using hsuffix
  | word hnone hc =>
    rw [← List.cons_append] at hleft hok hnone ⊢
    have hword : Rule.word (c :: tail ++ rest') = (Rule.word (c :: tail ++ rest)).onto rest' :=
      steady_word.eq_onto hcurbs htwin hleft hok
    rw [← hword]
    refine .word (Option.eq_none_iff_forall_ne_some.mpr fun n hn => ?_) hc
    obtain ⟨letters, hmem, hlength, q, hq, hletters⟩ := literalPrefix?_eq_some_iff.mp hn
    obtain ⟨hle, hqn, hqr⟩ := inline_of_mem_literalPrefixes hmem hq
    have hsome := literalPrefix?_eq_some_iff.mpr
      ⟨letters, hmem, hlength, q, hq, htwin.isPrefix_of_curbs hcurbs hle hqn hqr hletters⟩
    rw [Reading.start, hnone] at hsome
    contradiction
  | number hc =>
    rw [← List.cons_append] at hleft hok hc ⊢
    rw [← number_onto hcurbs hleft hok]
    refine .number ?_
    rcases Bool.or_eq_true_iff.mp hc with hdigit | hpoint
    · rw [hdigit, Bool.true_or]
    · obtain ⟨d, hd, hprefix⟩ := (startsFraction_iff _).mp hpoint
      refine Bool.or_eq_true_iff.mpr (.inr ((startsFraction_iff _).mpr ⟨d, hd, ?_⟩))
      have hsuffix := left_number_suffix hpoint
      rw [hleft] at hsuffix
      exact htwin.isPrefix hprefix hsuffix
  | symbol hbreak hc hpoint =>
    obtain ⟨hn, hr⟩ := ne_of_symbol hok
    have hf : c ≠ '\x0c' := by
      rintro rfl
      contradiction
    rw [← List.cons_append] at hleft hok hread hpoint ⊢
    rw [← symbol_onto hcurbs hread hok]
    refine .symbol (newlines_cons_eq_zero _ hn hr hf) hc ?_
    rw [← Bool.not_eq_true] at hpoint ⊢
    intro hpos
    obtain ⟨d, hd, hprefix⟩ := (startsFraction_iff _).mp hpos
    refine hpoint ((startsFraction_iff _).mpr ⟨d, hd, ?_⟩)
    refine htwin.isPrefix_of_curbs hcurbs (by simp) ?_ ?_ hprefix
    · simpa using (ne_of_class hd (by decide)).symm
    · simpa using (ne_of_class hd (by decide)).symm

end Lexis
