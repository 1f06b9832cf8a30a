import Lexis.Proofs.LogicalLine
import Lexis.Proofs.Lookahead

/-!
# The other line ending

A line break is a line feed, with a carriage return in front of it or without. The rules for
newlines, comments, indentation and continuations each look for it in their own way, and string
literals go over it as over any other character. Here what a rule reads of a text without carriage
returns is compared with what it reads of the text with one in front of each line feed. It is the
same, up to the carriage returns themselves, with one exception: in a literal on one line only a
backslash leads over a line feed, and it leads over one character.

* `Text.crlf`: the text with a carriage return in front of each line feed.
* `Rule.newlines_crlf`, `Rule.lineBreaks_crlf`, `Rule.lineLength_crlf`: runs of line breaks, and the
  length of a line.
* `Rule.tripleBody_crlf`, `Rule.lineBody_crlf_of_mem`: the body of a literal, where it stays closed
  and where it is cut off.
* `Rule.Quoted`: a literal, taken apart at its first quote. Its form can be read off its text
  (`Rule.Quoted.ofLiteral_eq`).
* `Kind.isFolded`: the literals on one line that go over a line feed.
* `Extent.crlf`, `Extent.exists_scan_crlf`: what is read with the other ending.
-/

namespace Lexis

namespace Text

/-! ## Texts -/

/-- The text with a carriage return in front of each line feed. -/
def crlf (t : Text) : Text := t.flatMap fun c => if c = '\n' then ['\r', '\n'] else [c]

@[simp] theorem crlf_nil : crlf [] = [] := rfl

@[simp] theorem crlf_feed (t : Text) : crlf ('\n' :: t) = '\r' :: '\n' :: crlf t := rfl

@[simp] theorem crlf_append (s t : Text) : crlf (s ++ t) = crlf s ++ crlf t :=
  List.flatMap_append

theorem crlf_cons {c : Char} (t : Text) (h : c ≠ '\n') : crlf (c :: t) = c :: crlf t := by
  simp [crlf, h]

theorem crlf_ne_nil {t : Text} (h : t ≠ []) : crlf t ≠ [] := by
  cases t with
  | nil => contradiction
  | cons c t =>
    by_cases hc : c = '\n'
    · subst hc
      simp
    · simp [crlf_cons t hc]

/-- Within a line nothing changes. -/
theorem crlf_of_not_mem {t : Text} (h : '\n' ∉ t) : crlf t = t := by
  induction t with
  | nil => rfl
  | cons c t ih =>
    rw [List.mem_cons, not_or] at h
    rw [crlf_cons t (Ne.symm h.1), ih h.2]

theorem crlf_of_class {p : Char → Bool} {t : Text} (h : ∀ c ∈ t, p c = true)
    (hp : p '\n' = false) : crlf t = t := by
  refine crlf_of_not_mem fun hmem => ?_
  rw [h _ hmem] at hp
  contradiction

/-- There are as many lines as before, -/
theorem count_crlf (t : Text) : (crlf t).count '\n' = t.count '\n' := by
  induction t with
  | nil => rfl
  | cons c t ih =>
    by_cases hc : c = '\n'
    · subst hc
      simp [ih]
    · simp [crlf_cons t hc, hc, ih]

/-- and the last one is the same. -/
theorem lastLine_crlf (t : Text) : lastLine (crlf t) = lastLine t := by
  induction t using List.reverseRecOn with
  | nil => rfl
  | append_singleton t c ih =>
    rw [crlf_append]
    by_cases hc : c = '\n'
    · subst hc
      rw [lastLine_append_of_getLast? _ rfl, lastLine_append_of_getLast? _ rfl]
    · have hline : '\n' ∉ [c] := by simpa using Ne.symm hc
      rw [crlf_of_not_mem hline, lastLine_append_of_not_mem _ hline,
        lastLine_append_of_not_mem _ hline, ih]

theorem byteSize_crlf_le (t : Text) : byteSize (crlf t) ≤ 2 * byteSize t := by
  induction t with
  | nil => exact Nat.le_refl 0
  | cons c t ih =>
    by_cases hc : c = '\n'
    · subst hc
      have hr : '\r'.utf8Size = 1 := rfl
      have hn : '\n'.utf8Size = 1 := rfl
      simp only [crlf_feed, byteSize_cons]
      omega
    · rw [crlf_cons t hc, byteSize_cons, byteSize_cons]
      omega

/-- A source that is short enough for twice its bytes stays short enough for a lexer. -/
theorem byteSize_crlf_lt {t : Text} (h : byteSize t < 2 ^ 28) : byteSize (crlf t) < 2 ^ 29 := by
  have hle := byteSize_crlf_le t
  omega

/-- A character that is no part of a line break is in front of both texts or of none. -/
theorem head?_crlf {p : Char → Bool} (hp : p '\n' = false ∧ p '\r' = false) (t : Text) :
    (crlf t).head?.any p = t.head?.any p := by
  cases t with
  | nil => rfl
  | cons c t =>
    by_cases hc : c = '\n'
    · subst hc
      simp [hp]
    · simp [crlf_cons t hc]

/-- What a text offers on its first line it offers with either ending. -/
theorem isPrefix_of_crlf {x t : Text} (hn : '\n' ∉ x) (hr : '\r' ∉ x) (h : x <+: crlf t) :
    x <+: t := by
  induction x generalizing t with
  | nil => exact List.nil_prefix
  | cons d x ih =>
    rw [List.mem_cons, not_or] at hn hr
    cases t with
    | nil => simp at h
    | cons c t =>
      by_cases hc : c = '\n'
      · subst hc
        rw [crlf_feed, List.cons_prefix_cons] at h
        exact absurd h.1.symm hr.1
      · rw [crlf_cons t hc, List.cons_prefix_cons] at h
        rw [List.cons_prefix_cons]
        exact ⟨h.1, ih hn.2 hr.2 h.2⟩

theorem curbs_crlf (t : Text) : t.Curbs (crlf t) :=
  fun _ _ hn hr => isPrefix_of_crlf hn hr

end Text

namespace Rule

open Text

/-! ## Line breaks -/

/-- No newline comes about, -/
theorem newlines_crlf_eq_zero {t : Text} (hr : '\r' ∉ t) (h : newlines t = 0) :
    newlines (crlf t) = 0 := by
  cases t with
  | nil => rfl
  | cons c t =>
    have hcn : c ≠ '\n' := by
      rintro rfl
      simp [newlines] at h
    have hcr : c ≠ '\r' := fun heq => hr (heq ▸ List.mem_cons_self)
    rw [crlf_cons t hcn]
    by_cases hc : c = '\x0c'
    · subst hc
      cases t with
      | nil => rfl
      | cons d t =>
        have hdn : d ≠ '\n' := by
          rintro rfl
          simp [newlines] at h
        have hdr : d ≠ '\r' := by
          rintro rfl
          simp at hr
        simp [crlf_cons t hdn, newlines, hdn, hdr]
    · exact newlines_cons_eq_zero _ hcn hcr hc

/-- and the newlines of a text are its newlines with the other ending. -/
theorem newlines_crlf {t : Text} (hr : '\r' ∉ t) :
    newlines (crlf t) = (crlf (t.take (newlines t))).length := by
  fun_induction newlines t with
  | case1 t ih =>
    have hr' : '\r' ∉ t := fun hmem => hr (List.mem_cons_of_mem _ hmem)
    simp [newlines, ih hr']
  | case2 t ih => simp at hr
  | case3 t ih =>
    have hr' : '\r' ∉ t := by simpa using hr
    simp [crlf_cons, newlines, ih hr']
  | case4 t ih => simp at hr
  | case5 t hn hrn hfn hfrn =>
    refine (newlines_crlf_eq_zero hr ?_).trans (by simp)
    unfold newlines
    split <;> simp_all

theorem lineBreaks_crlf {t : Text} (hr : '\r' ∉ t) :
    lineBreaks (crlf t) = (crlf (t.take (lineBreaks t))).length := by
  fun_induction lineBreaks t with
  | case1 t ih =>
    have hr' : '\r' ∉ t := fun hmem => hr (List.mem_cons_of_mem _ hmem)
    simp [lineBreaks, ih hr']
  | case2 t ih => simp at hr
  | case3 t hn hrn =>
    cases t with
    | nil => rfl
    | cons c t =>
      have hcn : c ≠ '\n' := fun heq => hn t (heq ▸ rfl)
      have hcr : c ≠ '\r' := fun heq => hr (heq ▸ List.mem_cons_self)
      simp [crlf_cons t hcn, lineBreaks, hcn, hcr]

theorem lineLength_crlf {t : Text} (hr : '\r' ∉ t) : lineLength (crlf t) = lineLength t := by
  induction t with
  | nil => rfl
  | cons c t ih =>
    have hcr : c ≠ '\r' := fun heq => hr (heq ▸ List.mem_cons_self)
    have hr' : '\r' ∉ t := fun hmem => hr (List.mem_cons_of_mem _ hmem)
    by_cases hc : c = '\n'
    · subst hc
      rfl
    · rw [crlf_cons t hc, lineLength_cons, lineLength_cons, ih hr']
      simp [hc, hcr]

/-! ## The bodies of string literals -/

/-- A character that is neither a backslash nor the quote is passed. -/
theorem tripleBody_cons_of_ne {quote c : Char} (n : Nat) (t : Text) (hslash : c ≠ '\\')
    (hc : c ≠ quote) : tripleBody quote n (c :: t) = tripleBody quote (n + 1) t := by
  rw [tripleBody_cons n t hslash, if_neg]
  rw [startsTriple, List.isPrefixOf_iff_prefix, List.cons_prefix_cons]
  exact fun hprefix => hc hprefix.1.symm

/-- Three quotes are no line ending. -/
theorem startsTriple_of_crlf {quote : Char} (hquote : isQuote quote = true) {t : Text}
    (h : startsTriple quote (crlf t) = true) : startsTriple quote t = true := by
  rw [startsTriple, List.isPrefixOf_iff_prefix] at h ⊢
  have hn : '\n' ≠ quote := (ne_of_class hquote (by decide)).symm
  have hr : '\r' ≠ quote := (ne_of_class hquote (by decide)).symm
  exact isPrefix_of_crlf (by simp [hn]) (by simp [hr]) h

/-- Between triple quotes either ending is a part of the body, -/
theorem tripleBody_crlf {quote : Char} (hquote : isQuote quote = true) {t : Text} {n k : Nat}
    (h : tripleBody quote n t = ⟨n + k, .closed⟩) (m : Nat) :
    tripleBody quote m (crlf t) = ⟨m + (crlf (t.take k)).length, .closed⟩ := by
  have hfeed : '\n' ≠ quote := (ne_of_class hquote (by decide)).symm
  have hreturn : '\r' ≠ quote := (ne_of_class hquote (by decide)).symm
  fun_induction tripleBody quote n t generalizing k m with
  | case1 n => simp at h
  | case2 n => simp at h
  | case3 n d t ih =>
    obtain ⟨k, rfl⟩ : ∃ i, k = i + 2 := ⟨k - 2, by have := lt_of_tripleBody h; omega⟩
    rw [show n + (k + 2) = n + 2 + k by omega] at h
    have hslash : '\\' ≠ '\n' := by decide
    rw [crlf_cons _ hslash, List.take_succ_cons, crlf_cons _ hslash, List.take_succ_cons]
    by_cases hd : d = '\n'
    · -- the backslash takes the carriage return, and the line feed stands for itself
      subst hd
      rw [crlf_feed, crlf_feed, tripleBody, tripleBody_cons_of_ne _ _ (by decide) hfeed, ih h]
      simp only [List.length_cons, Body.mk.injEq, and_true]
      omega
    · rw [crlf_cons t hd, crlf_cons _ hd, tripleBody, ih h]
      simp only [List.length_cons, Body.mk.injEq, and_true]
      omega
  | case4 n c t hend hnext htriple =>
    obtain rfl : k = 3 := by simpa using h.symm
    obtain ⟨u, hu⟩ := List.isPrefixOf_iff_prefix.mp htriple
    have hinline : '\n' ∉ [quote, quote, quote] := by simp [hfeed]
    have htriple' : startsTriple quote (quote :: quote :: quote :: crlf u) = true := by
      simp [startsTriple]
    have hslash : quote ≠ '\\' := ne_of_class hquote (by decide)
    have htake : ([quote, quote, quote] ++ u).take 3 = [quote, quote, quote] := rfl
    rw [← hu, crlf_append, htake, crlf_of_not_mem hinline, List.cons_append,
      tripleBody_cons m _ hslash]
    exact if_pos htriple'
  | case5 n c t hend hnext htriple ih =>
    obtain ⟨k, rfl⟩ : ∃ i, k = i + 1 := ⟨k - 1, by have := lt_of_tripleBody h; omega⟩
    rw [show n + (k + 1) = n + 1 + k by omega] at h
    rw [List.take_succ_cons]
    by_cases hc : c = '\n'
    · subst hc
      rw [crlf_feed, crlf_feed, tripleBody_cons_of_ne _ _ (by decide) hreturn,
        tripleBody_cons_of_ne _ _ (by decide) hfeed, ih h]
      simp only [List.length_cons, Body.mk.injEq, and_true]
      omega
    · have htriple' : ¬ startsTriple quote (c :: crlf t) = true := by
        intro hpos
        rw [← crlf_cons t hc] at hpos
        exact htriple (startsTriple_of_crlf hquote hpos)
      rw [crlf_cons t hc, crlf_cons _ hc, tripleBody_cons _ _ (ne_backslash hend hnext),
        if_neg htriple', ih h]
      simp only [List.length_cons, Body.mk.injEq, and_true]
      omega

/-- but on one line the backslash in front of a line feed takes the carriage return in its place,
and the line feed cuts the body off. -/
theorem lineBody_crlf_of_mem {quote : Char} {t : Text} {n k : Nat}
    (h : lineBody quote n t = ⟨n + k, .closed⟩) (hmem : '\n' ∈ t.take k) (m : Nat) :
    (lineBody quote m (crlf t)).ending = .unclosed := by
  fun_induction lineBody quote n t generalizing k m with
  | case1 n => simp at h
  | case2 n => simp at h
  | case3 n d t ih =>
    obtain ⟨k, rfl⟩ : ∃ i, k = i + 2 := ⟨k - 2, by have := lt_of_lineBody h; omega⟩
    rw [show n + (k + 2) = n + 2 + k by omega] at h
    rw [crlf_cons _ (show '\\' ≠ '\n' by decide)]
    by_cases hd : d = '\n'
    · subst hd
      rw [crlf_feed, lineBody, lineBody_cons _ _ (by decide), if_pos rfl]
    · have hmem' : '\n' ∈ t.take k := by simpa [Ne.symm hd] using hmem
      rw [crlf_cons t hd, lineBody]
      exact ih h hmem' _
  | case4 n t => simp at h
  | case5 n t hend hnext hfeed =>
    obtain rfl : k = 1 := by simpa using h.symm
    exact absurd (by simpa using hmem) (Ne.symm hfeed)
  | case6 n c t hend hnext hfeed hquote ih =>
    obtain ⟨k, rfl⟩ : ∃ i, k = i + 1 := ⟨k - 1, by have := lt_of_lineBody h; omega⟩
    rw [show n + (k + 1) = n + 1 + k by omega] at h
    have hmem' : '\n' ∈ t.take k := by simpa [Ne.symm hfeed] using hmem
    rw [crlf_cons t hfeed, lineBody_cons _ _ (ne_backslash hend hnext), if_neg hfeed, if_neg hquote]
    exact ih h hmem' _

/-! ## String literals -/

theorem openingQuote_cons {q : Char} (hq : isQuote q = true) (letters u : Text) :
    openingQuote ⟨letters, q :: u⟩ = q := by
  have hcases : q = '\'' ∨ q = '"' := by simpa [isQuote] using hq
  rcases hcases with rfl | rfl <;> rfl

/-- Behind its letters and the quote `q` a literal takes `taken` and leaves `rest`, where `triple`
says whether `q` is the first of three quotes. -/
inductive Quoted (q : Char) : (triple : Bool) → (taken rest : Text) → Prop
  /-- Between triple quotes. -/
  | triple {body rest : Text} (hbody : tripleBody q 0 (body ++ rest) = ⟨body.length, .closed⟩) :
      Quoted q true (q :: q :: body) rest
  /-- On one line. -/
  | line {body rest : Text} (hopen : startsTriple q (q :: (body ++ rest)) = false)
      (hbody : lineBody q 0 (body ++ rest) = ⟨body.length, .closed⟩) : Quoted q false body rest

/-- A closed body ends the literal. -/
theorem literalBody_append {form : QuoteForm} {body : Text → Body} {taken front rest : Text}
    (h : body (front ++ rest) = ⟨front.length, .closed⟩) :
    literalBody form body ⟨taken, front ++ rest⟩ =
      .accept (.literal .string) true ⟨taken ++ front, rest⟩ := by
  rw [literalBody, h, Reading.skip_append rfl]
  rfl

theorem exists_append_of_literalBody {form : QuoteForm} {body : Text → Body} (hbody : Closes body)
    {r : Reading} (hok : ∃ lexeme, (literalBody form body r).result = .ok lexeme) :
    ∃ front rest, r.left = front ++ rest ∧ body (front ++ rest) = ⟨front.length, .closed⟩ := by
  have hclosed := closed_of_literalBody hok
  obtain ⟨front, rest, heq, hlength⟩ := Text.exists_append_of_le (hbody _ _ hclosed).2.1
  rw [hlength, heq] at hclosed
  exact ⟨front, rest, heq, hclosed⟩

theorem literal_of_triple {q : Char} (hq : isQuote q = true) (letters v : Text) :
    literal ⟨letters, q :: q :: q :: v⟩ =
      literalBody (.ofQuote q true) (tripleBody q 0) ⟨letters ++ [q, q, q], v⟩ := by
  rw [literal, openingQuote_cons hq, if_pos (by simp [startsTriple])]
  rfl

theorem literal_of_line {q : Char} (hq : isQuote q = true) (letters : Text) {u : Text}
    (hopen : startsTriple q (q :: u) = false) :
    literal ⟨letters, q :: u⟩ =
      literalBody (.ofQuote q false) (lineBody q 0) ⟨letters ++ [q], u⟩ := by
  rw [literal, openingQuote_cons hq, if_neg (by simp [hopen])]
  rfl

theorem exists_quoted {q : Char} (hq : isQuote q = true) {letters u : Text}
    (hok : ∃ lexeme, (literal ⟨letters, q :: u⟩).result = .ok lexeme) :
    ∃ triple taken rest, u = taken ++ rest ∧ Quoted q triple taken rest := by
  cases hopen : startsTriple q (q :: u) with
  | true =>
    obtain ⟨v, hv⟩ := List.isPrefixOf_iff_prefix.mp hopen
    obtain rfl : q :: q :: v = u := (List.cons.inj hv).2
    rw [literal_of_triple hq] at hok
    obtain ⟨body, rest, rfl, hbody⟩ := exists_append_of_literalBody (closes_tripleBody q) hok
    exact ⟨true, _, rest, rfl, .triple hbody⟩
  | false =>
    rw [literal_of_line hq letters hopen] at hok
    obtain ⟨body, rest, rfl, hbody⟩ := exists_append_of_literalBody (closes_lineBody q) hok
    exact ⟨false, _, rest, rfl, .line hopen hbody⟩

namespace Quoted

variable {q : Char} {triple : Bool} {taken rest : Text}

theorem literal_eq (h : Quoted q triple taken rest) (hq : isQuote q = true) (letters : Text) :
    literal ⟨letters, q :: (taken ++ rest)⟩ =
      .accept (.literal .string) true ⟨letters ++ q :: taken, rest⟩ := by
  cases h with
  | @triple body _ hbody =>
    rw [List.cons_append, List.cons_append, literal_of_triple hq, literalBody_append hbody]
    simp
  | line hopen hbody =>
    rw [literal_of_line hq letters hopen, literalBody_append hbody]
    simp

/-- Between triple quotes the literal is the same with the other ending. -/
theorem crlf (h : Quoted q true taken rest) (hq : isQuote q = true) :
    Quoted q true (crlf taken) (crlf rest) := by
  have hfeed : q ≠ '\n' := ne_of_class hq (by decide)
  cases h with
  | @triple body _ hbody =>
    rw [crlf_cons _ hfeed, crlf_cons _ hfeed]
    refine .triple ?_
    have hbody' : tripleBody q 0 (body ++ rest) = ⟨0 + body.length, .closed⟩ := by
      rw [hbody, Nat.zero_add]
    rw [← crlf_append, tripleBody_crlf hq hbody' 0, List.take_left, Nat.zero_add]

/-- On one line it is cut off, if it goes over a line feed. -/
theorem exists_literal_crlf (h : Quoted q false taken rest) (hq : isQuote q = true)
    (hmem : '\n' ∈ taken) (letters : Text) :
    ∃ r, literal ⟨letters, q :: Text.crlf (taken ++ rest)⟩ =
      .reject (.unterminatedString (.ofQuote q false)) r := by
  have hfeed : q ≠ '\n' := ne_of_class hq (by decide)
  cases h with
  | line hopen hbody =>
    have hopen' : startsTriple q (q :: Text.crlf (taken ++ rest)) = false := by
      rw [← Bool.not_eq_true] at hopen ⊢
      rw [← crlf_cons _ hfeed]
      exact fun hpos => hopen (startsTriple_of_crlf hq hpos)
    have hbody' : lineBody q 0 (taken ++ rest) = ⟨0 + taken.length, .closed⟩ := by
      rw [hbody, Nat.zero_add]
    have hending := lineBody_crlf_of_mem hbody' (by rwa [List.take_left]) 0
    rw [literal_of_line hq letters hopen', literalBody, hending]
    exact ⟨_, rfl⟩

end Quoted

end Rule

open Rule Text

/-! ## The form of a literal -/

/-- The quotes of a string literal, given its text. -/
def QuoteForm.ofLiteral (text : Text) : QuoteForm :=
  let quoted := Reading.start (text.dropWhile (!isQuote ·))
  .ofQuote (openingQuote quoted) (startsTriple (openingQuote quoted) quoted.left)

/-- Whether a token of this kind and text is a string literal on one line that goes over a line
feed. -/
def Kind.isFolded (kind : Kind) (text : Text) : Bool :=
  kind = .literal .string && text.contains '\n' && !(QuoteForm.ofLiteral text).isTriple

theorem QuoteForm.isTriple_ofQuote (q : Char) (triple : Bool) :
    (ofQuote q triple).isTriple = triple := by
  unfold ofQuote
  cases q == '"' <;> cases triple <;> rfl

/-- Letters that can stand in front of the quotes, or none. -/
theorem isQuote_eq_false_of_mem {letters : Text} (h : letters ∈ [] :: literalPrefixes) :
    ∀ c ∈ letters, isQuote c = false ∧ c ≠ '\n' := by
  simp only [literalPrefixes, List.mem_cons, List.not_mem_nil, or_false] at h
  rcases h with rfl | rfl | rfl | rfl <;> simp [isQuote]

theorem Rule.Quoted.ofLiteral_eq {q : Char} {triple : Bool} {taken rest letters : Text}
    (h : Quoted q triple taken rest) (hq : isQuote q = true)
    (hletters : letters ∈ [] :: literalPrefixes) :
    QuoteForm.ofLiteral (letters ++ q :: taken) = .ofQuote q triple := by
  have hquoted : (letters ++ q :: taken).dropWhile (!isQuote ·) = q :: taken := by
    rw [List.dropWhile_append_of_pos fun c hc => by simp [isQuote_eq_false_of_mem hletters c hc]]
    simp [hq]
  have htriple : startsTriple q (q :: taken) = triple := by
    cases h with
    | triple => simp [startsTriple]
    | @line body _ hopen =>
      rw [← Bool.not_eq_true, startsTriple, List.isPrefixOf_iff_prefix] at hopen ⊢
      exact fun hpos => hopen (hpos.trans (List.prefix_append (q :: taken) rest))
  rw [QuoteForm.ofLiteral, hquoted, Reading.start, openingQuote_cons hq, htriple]

theorem Rule.Quoted.isFolded_eq {q : Char} {triple : Bool} {taken rest letters : Text}
    (h : Quoted q triple taken rest) (hq : isQuote q = true)
    (hletters : letters ∈ [] :: literalPrefixes) (hmem : '\n' ∈ taken) :
    Kind.isFolded (.literal .string) (letters ++ q :: taken) = !triple := by
  have hmem' : '\n' ∈ letters ++ q :: taken :=
    List.mem_append_right _ (List.mem_cons_of_mem _ hmem)
  rw [Kind.isFolded, List.contains_iff_mem.mpr hmem', h.ofLiteral_eq hq hletters,
    QuoteForm.isTriple_ofQuote]
  rfl

theorem not_mem_letters {letters : Text} (hletters : letters ∈ [] :: literalPrefixes) :
    '\n' ∉ letters :=
  fun hmem => (isQuote_eq_false_of_mem hletters _ hmem).2 rfl

/-- In front of the body nothing changes. -/
theorem crlf_quoted {letters : Text} (hletters : letters ∈ [] :: literalPrefixes) {q : Char}
    (hq : isQuote q = true) (u : Text) : crlf (letters ++ q :: u) = letters ++ q :: crlf u := by
  rw [crlf_append, crlf_of_not_mem (not_mem_letters hletters),
    crlf_cons u (ne_of_class hq (by decide))]

/-! ## Code -/

namespace CodeChoice

variable {c : Char} {t tail rest : Text} {r : Scan}

/-- Quotes are read as a literal, with or without letters in front of them. -/
theorem of_quote {letters u : Text} {q : Char} (hletters : letters ∈ [] :: literalPrefixes)
    (hq : isQuote q = true) (heq : c :: t = letters ++ q :: u) :
    CodeChoice c t (literal ⟨letters, q :: u⟩) := by
  rcases List.mem_cons.mp hletters with rfl | hmem
  · obtain ⟨rfl, rfl⟩ := List.cons.inj heq
    exact .quoted hq
  · have hn : literalPrefix? (c :: t) = some letters.length :=
      literalPrefix?_eq_some_iff.mpr ⟨letters, hmem, rfl, q, hq, u, by simp [heq]⟩
    have hread := CodeChoice.prefixed hn
    rwa [stringLiteral_eq, heq, Reading.start, Reading.skip_append rfl, List.nil_append] at hread

/-- Code that holds a line feed is a literal. -/
theorem exists_literal (h : CodeChoice c t r) :
    r.StaysInline ∨ ∃ letters q u, letters ∈ [] :: literalPrefixes ∧ isQuote q = true ∧
      c :: t = letters ++ q :: u ∧ r = literal ⟨letters, q :: u⟩ := by
  cases h with
  | quoted hc => exact .inr ⟨[], c, t, by simp, hc, rfl, rfl⟩
  | prefixed hn =>
    obtain ⟨letters, hletters, rfl, q, hq, u, hu⟩ := literalPrefix?_eq_some_iff.mp hn
    rw [List.append_assoc, List.singleton_append] at hu
    refine .inr ⟨letters, q, u, List.mem_cons_of_mem _ hletters, hq, hu.symm, ?_⟩
    rw [stringLiteral_eq, ← hu, Reading.start, Reading.skip_append rfl, List.nil_append]
  | word => exact .inl (staysInline_word _)
  | number => exact .inl (staysInline_number _)
  | symbol => exact .inl (staysInline_symbol _ _)

theorem ne_feed (h : CodeChoice c t r) (hok : ∃ lexeme, r.result = .ok lexeme) : c ≠ '\n' := by
  cases h with
  | quoted hc => exact ne_of_class hc (by decide)
  | prefixed hn => exact ne_of_class (isIdentStart_of_literalPrefix? hn) (by decide)
  | word _ hc => exact ne_of_class hc (by decide)
  | number hc =>
    rcases Bool.or_eq_true_iff.mp hc with hdigit | hpoint
    · exact ne_of_class hdigit (by decide)
    · rw [eq_dot_of_startsFraction hpoint]
      decide
  | symbol => exact (ne_of_symbol hok).1

theorem text_eq (h : CodeChoice c t r) {lexeme : Lexeme} (hlexeme : r.result = .ok lexeme) :
    lexeme.text = r.reading.taken := by
  have hlayout := (h.endsInline lexeme hlexeme).1
  obtain rfl := h.scan_eq ⟨false, false, false⟩
  refine (faithful_scan _ c t).text_eq lexeme hlexeme fun hkind => ?_
  rw [hkind] at hlayout
  contradiction

/-- The literal, taken apart at its first quote. -/
theorem exists_quoted (h : CodeChoice c (tail ++ rest) r) (hread : r.reading = ⟨c :: tail, rest⟩)
    (hok : ∃ lexeme, r.result = .ok lexeme) (hmem : '\n' ∈ c :: tail) :
    ∃ (letters : Text) (q : Char) (triple : Bool) (taken : Text),
      letters ∈ [] :: literalPrefixes ∧ isQuote q = true ∧ c :: tail = letters ++ q :: taken ∧
      '\n' ∈ taken ∧ Quoted q triple taken rest ∧
      r = .accept (.literal .string) true ⟨c :: tail, rest⟩ := by
  rcases h.exists_literal with hinline | ⟨letters, q, u, hletters, hq, heq, rfl⟩
  · obtain ⟨lexeme, hlexeme⟩ := hok
    have hnot := (hinline lexeme hlexeme).2
    rw [Reading.Inline, hread] at hnot
    exact absurd hmem hnot
  · obtain ⟨triple, taken, left, rfl, hquoted⟩ := Rule.exists_quoted hq hok
    rw [hquoted.literal_eq hq, Scan.reading_accept, Reading.mk.injEq] at hread
    obtain ⟨htaken, rfl⟩ := hread
    refine ⟨letters, q, triple, taken, hletters, hq, htaken.symm, ?_, hquoted, ?_⟩
    · have hqn : '\n' ≠ q := (ne_of_class hq (by decide)).symm
      rw [← htaken, List.mem_append, List.mem_cons] at hmem
      exact (hmem.resolve_left (not_mem_letters hletters)).resolve_left hqn
    · rw [hquoted.literal_eq hq, htaken]

end CodeChoice

/-- The outcome with the other line ending. -/
def Scan.crlf (r : Scan) : Scan where
  reading := ⟨r.reading.taken.crlf, r.reading.left.crlf⟩
  result := r.result.map fun lexeme => { lexeme with text := lexeme.text.crlf }
  indent := r.indent

namespace CodeChoice

variable {c : Char} {tail rest : Text} {r : Scan} {lexeme : Lexeme}

/-- **Code is the same with the other ending**, unless it goes over a line feed on one line, -/
theorem crlf (h : CodeChoice c (tail ++ rest) r) (hread : r.reading = ⟨c :: tail, rest⟩)
    (hlexeme : r.result = .ok lexeme) (hfold : lexeme.kind.isFolded lexeme.text = false) :
    CodeChoice c (tail.crlf ++ rest.crlf) r.crlf := by
  by_cases hmem : '\n' ∈ c :: tail
  · obtain ⟨letters, q, triple, taken, hletters, hq, heq, hfeed, hquoted, rfl⟩ :=
      h.exists_quoted hread ⟨_, hlexeme⟩ hmem
    obtain rfl := Except.ok.inj hlexeme
    obtain rfl : triple = true := by
      simpa [heq, hquoted.isFolded_eq hq hletters hfeed] using hfold
    have hc : c ≠ '\n' := h.ne_feed ⟨_, rfl⟩
    have heq' : c :: tail.crlf = letters ++ q :: taken.crlf := by
      rw [← crlf_cons _ hc, heq, crlf_quoted hletters hq]
    have hchoice := of_quote hletters hq (c := c) (t := tail.crlf ++ rest.crlf)
      (u := taken.crlf ++ rest.crlf) (by rw [← List.cons_append, heq']; simp)
    rw [(hquoted.crlf hq).literal_eq hq, ← heq', ← crlf_cons _ hc] at hchoice
    exact hchoice
  · have hline : '\n' ∉ tail := fun htail => hmem (List.mem_cons_of_mem _ htail)
    have heq : r.crlf = r.onto rest.crlf := by
      have htext : lexeme.text.crlf = lexeme.text := by
        rw [h.text_eq hlexeme, hread, crlf_of_not_mem hmem]
      simp only [Scan.crlf, Scan.onto, Reading.onto, hread, hlexeme, Except.map, htext,
        crlf_of_not_mem hmem]
    rw [heq, crlf_of_not_mem hline]
    exact h.onto hread ⟨_, hlexeme⟩ (curbs_crlf rest)

/-- and then it is cut off. -/
theorem exists_crlf_of_isFolded (h : CodeChoice c (tail ++ rest) r)
    (hread : r.reading = ⟨c :: tail, rest⟩) (hlexeme : r.result = .ok lexeme)
    (hfold : lexeme.kind.isFolded lexeme.text = true) :
    ∃ read, CodeChoice c (Text.crlf (tail ++ rest))
      (.reject (.unterminatedString (.ofLiteral lexeme.text)) read) := by
  have htext := h.text_eq hlexeme
  rw [hread] at htext
  have hmem : '\n' ∈ c :: tail := by
    simp only [Kind.isFolded, htext, Bool.and_eq_true, List.contains_iff_mem] at hfold
    exact hfold.1.2
  obtain ⟨letters, q, triple, taken, hletters, hq, heq, hfeed, hquoted, rfl⟩ :=
    h.exists_quoted hread ⟨_, hlexeme⟩ hmem
  obtain rfl := Except.ok.inj hlexeme
  obtain rfl : triple = false := by
    simpa [heq, hquoted.isFolded_eq hq hletters hfeed] using hfold
  obtain ⟨read, hreject⟩ := hquoted.exists_literal_crlf hq hfeed letters
  refine ⟨read, ?_⟩
  dsimp only
  rw [heq, hquoted.ofLiteral_eq hq hletters, ← hreject]
  refine of_quote hletters hq ?_
  rw [← crlf_cons _ (h.ne_feed ⟨_, rfl⟩), ← List.cons_append, heq, List.append_assoc,
    List.cons_append, crlf_quoted hletters hq]

end CodeChoice

/-! ## All rules -/

namespace Extent

variable {s : Surroundings} {front rest : Text} {r : Scan} {lexeme : Lexeme}

/-- **The same is read with the other ending**, unless it is a literal on one line that goes over a
line feed, -/
theorem crlf (h : Extent s front rest r) (hreturn : '\r' ∉ front ++ rest)
    (hlexeme : r.result = .ok lexeme) (hfold : lexeme.kind.isFolded lexeme.text = false) :
    Extent s front.crlf rest.crlf r.crlf := by
  cases h with
  | newline hne hbreak =>
    refine .newline (crlf_ne_nil hne) ?_
    rw [← crlf_append, newlines_crlf hreturn, hbreak, List.take_left]
  | blank hne hspace hend hbreak hindent =>
    have hline := crlf_of_class hspace (by decide)
    have hbreak' := newlines_crlf_eq_zero hreturn hbreak
    rw [crlf_append, hline] at hbreak'
    have h : Extent s front rest.crlf _ :=
      .blank hne hspace ((head?_crlf (by decide) rest).trans hend) hbreak' hindent
    simpa [Scan.crlf, Scan.accept, Except.map, hline] using h
  | bracketed hstart hbrackets hne hspace hend hhash =>
    have hline := crlf_of_class hspace (by decide)
    have h : Extent s front rest.crlf _ :=
      .bracketed hstart hbrackets hne hspace ((head?_crlf (by decide) rest).trans hend)
        ((head?_crlf (by decide) rest).trans hhash)
    simpa [Scan.crlf, Scan.accept, Except.map, hline] using h
  | @indentation space breaks _ hstart hbrackets hne hspace hend hhash hbreaks =>
    have hline := crlf_of_class hspace (by decide)
    have hbreaks' := lineBreaks_crlf (t := breaks ++ rest) (by simp_all)
    rw [hbreaks, List.take_left, crlf_append] at hbreaks'
    rw [← head?_crlf (by decide), crlf_append] at hend hhash
    have h : Extent s (space ++ breaks.crlf) rest.crlf _ :=
      .indentation hstart hbrackets hne hspace hend hhash hbreaks'
    have htext : Text.crlf (List.replicate (indentWidth space) ' ') = _ :=
      crlf_of_not_mem (by simp)
    simpa [Scan.crlf, Except.map, hline, htext] using h
  | @lineComment space text breaks _ hstart hspace htext hbreaks =>
    have hline := crlf_of_class hspace (by decide)
    have htext' := crlf_of_not_mem (not_mem_of_lineLength htext)
    have hbreaks' := lineBreaks_crlf (t := breaks ++ rest) (by simp_all)
    rw [hbreaks, List.take_left, crlf_append] at hbreaks'
    rw [← lineLength_crlf (by simp_all), crlf_append, crlf_append, htext'] at htext
    have h : Extent s (space ++ '#' :: (text ++ breaks.crlf)) rest.crlf _ :=
      .lineComment hstart hspace htext hbreaks'
    simpa [Scan.crlf, Scan.accept, Except.map, hline, htext', crlf_cons] using h
  | @comment text _ hstart htext =>
    have htext' := crlf_of_not_mem (not_mem_of_lineLength htext)
    rw [← lineLength_crlf (by simp_all), crlf_append, htext'] at htext
    have h : Extent s ('#' :: text) rest.crlf _ := .comment hstart htext
    simpa [Scan.crlf, Scan.accept, Except.map, htext', crlf_cons] using h
  | @continuation feed space _ hfeed hspace hend =>
    have hline := crlf_of_class hspace (by decide)
    obtain rfl : feed = ['\n'] := hfeed.resolve_right (by rintro rfl; simp at hreturn)
    have h : Extent s ('\\' :: (['\r', '\n'] ++ space)) rest.crlf _ :=
      .continuation (.inr rfl) hspace ((head?_crlf (by decide) rest).trans hend)
    simpa [Scan.crlf, Scan.accept, Except.map, hline, crlf_cons] using h
  | @code c tail _ _ _ h hread hok =>
    rw [crlf_cons _ (h.ne_feed ⟨_, hok⟩)]
    refine .code (h.crlf hread hlexeme hfold) ?_ (by rw [Scan.crlf, hok]; rfl)
    rw [Scan.crlf, hread, ← crlf_cons _ (h.ne_feed ⟨_, hok⟩)]

/-- and such a literal is cut off. -/
theorem exists_scan_crlf (h : Extent s front rest r) (hlexeme : r.result = .ok lexeme)
    (hfold : lexeme.kind.isFolded lexeme.text = true) {c : Char} {t : Text}
    (heq : c :: t = Text.crlf (front ++ rest)) :
    ∃ read, scan s c t = .reject (.unterminatedString (.ofLiteral lexeme.text)) read := by
  cases h with
  | @code d tail _ _ _ h hread hok =>
    obtain ⟨read, hchoice⟩ := h.exists_crlf_of_isFolded hread hlexeme hfold
    rw [List.cons_append, crlf_cons _ (h.ne_feed ⟨_, hok⟩)] at heq
    obtain ⟨rfl, rfl⟩ := List.cons.inj heq
    exact ⟨read, hchoice.scan_eq s⟩
  | _ =>
    obtain rfl := Except.ok.inj hlexeme
    contradiction

end Extent

end Lexis
