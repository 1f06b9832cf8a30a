import Mathlib.Data.List.TakeWhile
import Lexis.Proofs.Lexeme

/-!
# What a token does to its line

A source is divided into lines twice: by its line feeds, and by the tokens that a parser sees. For
the second only a few facts about each rule matter: whether the text it reads holds a line feed,
whether it ends with one, and how it starts. They are stated here once, with one case for each kind
of layout and one for everything else.

* `Lexeme.Lays`: what a lexeme makes of the line. Code ends on a line and a newline ends one. Space
  and a comment behind code stay on their line, a comment at the start of a line ends it, and
  indentation does so if nothing but line breaks is behind it.
* `Rule.exists_lineBody_eq`, `Rule.exists_tripleBody_eq`: a closed literal ends with its quote.
* `Rule.exists_newlines_eq`, `Rule.exists_lineBreaks_eq`: a run of line breaks ends with a line
  feed.
* `lays_scan`: the lexeme of the chosen rule is one of these cases.
-/

namespace Lexis

namespace Reading

/-! ## Line feeds in what is taken -/

/-- Nothing taken so far is a line feed. -/
def Inline (r : Reading) : Prop := '\n' ∉ r.taken

theorem inline_start (t : Text) : (start t).Inline := List.not_mem_nil

theorem Inline.takeWhile {r : Reading} (h : r.Inline) {p : Char → Bool} (hp : p '\n' = false) :
    (r.takeWhile p).Inline := by
  intro hmem
  rcases List.mem_append.mp hmem with htaken | hmore
  · exact h htaken
  · have hpos := List.mem_takeWhile_imp hmore
    rw [hp] at hpos
    contradiction

/-- A character that is seen to be in a class is taken. -/
theorem Inline.skip_one {r : Reading} (h : r.Inline) {p : Char → Bool} (hsees : r.sees p = true)
    (hp : p '\n' = false) : (r.skip 1).Inline := by
  intro hmem
  rcases List.mem_append.mp hmem with htaken | hmore
  · exact h htaken
  · cases hleft : r.left with
    | nil => simp [hleft] at hmore
    | cons c t =>
      have hc : p c = true := by simpa [sees, hleft] using hsees
      have heq : '\n' = c := by simpa [hleft] using hmore
      rw [← heq, hp] at hc
      contradiction

theorem Inline.takeIf {r : Reading} (h : r.Inline) {p : Char → Bool} (hp : p '\n' = false) :
    (r.takeIf p).Inline := by
  unfold Reading.takeIf
  split
  · rename_i hsees
    exact h.skip_one hsees hp
  · exact h

theorem Inline.getLast?_ne {r : Reading} (h : r.Inline) : r.taken.getLast? ≠ some '\n' :=
  fun hlast => h (List.mem_of_getLast? hlast)

/-- What is taken ends with the last character that is passed. -/
theorem getLast?_taken_skip {r : Reading} {n : Nat} {c : Char}
    (h : ∃ k, n = k + 1 ∧ r.left[k]? = some c) : (r.skip n).taken.getLast? = some c := by
  obtain ⟨k, rfl, hc⟩ := h
  simp [skip, List.take_add_one, hc]

end Reading

/-! ## Cases -/

/-- What a lexeme makes of the line, where `r` is what its rule has read. -/
inductive Lexeme.Lays (s : Surroundings) (r : Reading) (lexeme : Lexeme) : Prop
  /-- Code starts and ends on a line, with no space in front. -/
  | code (hkind : lexeme.kind.isLayout = false) (hhead : r.whole.head?.any isBlank = false)
      (hlast : r.taken.getLast? ≠ some '\n')
  /-- A newline ends a line. It starts with a line break or with a form feed in front of one. -/
  | newline (onward : Text) (hkind : lexeme.kind = .layout .newline)
      (hbreak : 0 < Rule.lineBreak onward)
      (hwhole : r.whole = onward ∨ r.whole = '\x0c' :: onward)
      (hlast : r.taken.getLast? = some '\n')
  /-- Space stays on its line. Outside brackets, that of a line starts with a form feed. -/
  | blank (hkind : lexeme.kind = .layout .blank) (hblank : ∀ c ∈ r.taken, isBlank c = true)
      (hhead : s.lineStart = true → s.inBrackets = false → r.whole.head? = some '\x0c')
  /-- A comment behind something on its line stays on it. -/
  | comment (hkind : lexeme.kind = .layout .comment) (hstart : s.lineStart = false)
      (hhead : r.whole.head? = some '#') (hinline : r.Inline)
  /-- A comment at the start of a line ends it, if the source does not end. -/
  | lineComment (hkind : lexeme.kind = .layout .comment) (hstart : s.lineStart = true)
      (hlast : r.taken.getLast? = some '\n' ∨ r.left = [])
  /-- Indentation is all the space that a line starts with. It takes the line breaks behind it
  along, and stays on its line if there is something else. -/
  | indentation (breaks : Text) (hkind : lexeme.kind = .layout .indentation)
      (hstart : s.lineStart = true) (hbrackets : s.inBrackets = false)
      (hne : r.whole.takeWhile isIndent ≠ [])
      (htaken : r.taken = r.whole.takeWhile isIndent ++ breaks)
      (htext : lexeme.text = List.replicate (indentWidth (r.whole.takeWhile isIndent)) ' ')
      (hbreaks : (breaks = [] ∧ Rule.lineBreak r.left = 0 ∧ r.left.head? ≠ some '#') ∨
        breaks.getLast? = some '\n')
  /-- A continuation joins its line to the next. -/
  | continuation (hkind : lexeme.kind = .layout .continuation)

namespace Scan

/-- A lexeme makes of the line what its kind says. -/
def Lays (s : Surroundings) (scan : Scan) : Prop :=
  ∀ lexeme, scan.result = .ok lexeme → lexeme.Lays s scan.reading

/-- A lexeme of code that ends on its line. -/
def EndsInline (s : Scan) : Prop :=
  ∀ lexeme, s.result = .ok lexeme →
    lexeme.kind.isLayout = false ∧ s.reading.taken.getLast? ≠ some '\n'

theorem endsInline_accept {kind : Kind} (visible : Bool) {r : Reading}
    (hkind : kind.isLayout = false) (hlast : r.taken.getLast? ≠ some '\n') :
    (accept kind visible r).EndsInline := by
  rintro _ ⟨⟩
  exact ⟨hkind, hlast⟩

theorem endsInline_reject (cause : Cause) (r : Reading) : (reject cause r).EndsInline := by
  rintro _ ⟨⟩

/-- A lexeme of code without a line feed. -/
def StaysInline (s : Scan) : Prop :=
  ∀ lexeme, s.result = .ok lexeme → lexeme.kind.isLayout = false ∧ s.reading.Inline

theorem staysInline_accept {kind : Kind} (visible : Bool) {r : Reading}
    (hkind : kind.isLayout = false) (hinline : r.Inline) :
    (accept kind visible r).StaysInline := by
  rintro _ ⟨⟩
  exact ⟨hkind, hinline⟩

theorem staysInline_reject (cause : Cause) (r : Reading) : (reject cause r).StaysInline := by
  rintro _ ⟨⟩

theorem StaysInline.endsInline {s : Scan} (h : s.StaysInline) : s.EndsInline :=
  fun lexeme hlexeme => (h lexeme hlexeme).imp_right Reading.Inline.getLast?_ne

/-- Code behind a first character that is no space. -/
theorem EndsInline.lays {scan : Scan} (h : scan.EndsInline) {s : Surroundings} {c : Char}
    {t : Text} (hwhole : scan.reading.whole = c :: t) (hc : ¬ isBlank c = true) :
    scan.Lays s := by
  intro lexeme hresult
  obtain ⟨hkind, hlast⟩ := h lexeme hresult
  exact .code hkind (by simpa [hwhole] using hc) hlast

end Scan

namespace Rule

open Scan

/-! ## Numbers, words and symbols -/

theorem staysInline_integer {r : Reading} (h : r.Inline) : (integer r).StaysInline := by
  unfold integer
  split
  · rename_i hsees
    exact staysInline_accept _ rfl (h.skip_one hsees (by decide))
  · split
    · rename_i hsees
      exact staysInline_accept _ rfl (h.skip_one hsees (by decide))
    · exact staysInline_accept _ rfl h

theorem staysInline_float {r : Reading} (h : r.Inline) : (float r).StaysInline := by
  unfold float
  split
  · exact staysInline_reject _ _
  · split
    · rename_i hsees
      exact staysInline_accept _ rfl (h.skip_one hsees (by decide))
    · exact staysInline_accept _ rfl h

theorem inline_fraction {r : Reading} (h : r.Inline) : (fraction r).Inline := by
  unfold fraction
  split
  · rename_i hsees
    exact (h.skip_one hsees (by decide)).takeWhile (by decide)
  · exact h

theorem inline_hexMarker {t : Text} (h : startsHex t = true) :
    ((Reading.start t).skip 2).Inline := by
  unfold startsHex at h
  split at h
  · rename_i x rest
    have hx : x ≠ '\n' := by
      rintro rfl
      contradiction
    simp [Reading.Inline, Reading.start, Reading.skip, hx.symm]
  · contradiction

theorem staysInline_number (t : Text) : (number t).StaysInline := by
  have hwhole : ((Reading.start t).takeWhile Char.isDigit).Inline :=
    (Reading.inline_start t).takeWhile (by decide)
  unfold number hexInteger decimal exponentMarker
  dsimp only
  split
  · rename_i hhex
    split
    · exact staysInline_integer ((inline_hexMarker hhex).takeWhile (by decide))
    · exact staysInline_reject _ _
  · have hmantissa := inline_fraction hwhole
    split
    · rename_i hsees
      have hmarker := (hmantissa.skip_one hsees (by decide)).takeIf (p := isSign) (by decide)
      split
      · exact staysInline_float (hmarker.takeWhile (by decide))
      · exact staysInline_reject _ _
    · split
      · exact staysInline_float hmantissa
      · exact staysInline_integer hwhole

theorem staysInline_word (t : Text) : (word t).StaysInline := by
  have hinline : ((Reading.start t).takeWhile isIdentContinue).Inline :=
    (Reading.inline_start t).takeWhile (by decide)
  refine staysInline_accept _ ?_ hinline
  unfold wordKind
  split <;> rfl

theorem not_mem_spelling (s : Symbol) : '\n' ∉ s.spelling.toList := by
  cases s <;> decide

theorem staysInline_symbol (c : Char) (t : Text) : (symbol c (c :: t)).StaysInline := by
  rw [symbol_cons]
  split
  · rename_i s hread
    refine staysInline_accept _ rfl ?_
    obtain ⟨rest, hrest⟩ := Symbol.spelling_isPrefix_of_read? hread
    rw [← hrest]
    simpa [Reading.Inline, Reading.start, Reading.skip] using not_mem_spelling s
  · exact staysInline_reject _ _

/-! ## String literals -/

/-- A closed body of a literal on one line ends with the quote. -/
theorem exists_lineBody_eq {quote : Char} {n : Nat} {t : Text}
    (h : (lineBody quote n t).ending = .closed) :
    ∃ k, (lineBody quote n t).length = n + k + 1 ∧ t[k]? = some quote := by
  fun_induction lineBody quote n t with
  | case1 n => contradiction
  | case2 n => contradiction
  | case3 n d t ih =>
    obtain ⟨k, hlength, hquote⟩ := ih h
    exact ⟨k + 2, by omega, hquote⟩
  | case4 n t => contradiction
  | case5 n t hc => exact ⟨0, rfl, rfl⟩
  | case6 n c t _ _ _ _ ih =>
    obtain ⟨k, hlength, hquote⟩ := ih h
    exact ⟨k + 1, by omega, hquote⟩

/-- A closed body between triple quotes ends with the quote. -/
theorem exists_tripleBody_eq {quote : Char} {n : Nat} {t : Text}
    (h : (tripleBody quote n t).ending = .closed) :
    ∃ k, (tripleBody quote n t).length = n + k + 1 ∧ t[k]? = some quote := by
  fun_induction tripleBody quote n t with
  | case1 n => contradiction
  | case2 n => contradiction
  | case3 n d t ih =>
    obtain ⟨k, hlength, hquote⟩ := ih h
    exact ⟨k + 2, by omega, hquote⟩
  | case4 n c t _ _ htriple =>
    obtain ⟨rest, hrest⟩ := List.isPrefixOf_iff_prefix.mp htriple
    exact ⟨2, rfl, by simp [← hrest]⟩
  | case5 n c t _ _ _ ih =>
    obtain ⟨k, hlength, hquote⟩ := ih h
    exact ⟨k + 1, by omega, hquote⟩

theorem openingQuote_ne (r : Reading) : openingQuote r ≠ '\n' := by
  unfold openingQuote
  split <;> decide

theorem endsInline_closeLiteral (form : QuoteForm) {r : Reading} {e : Ending}
    (h : e = .closed → r.taken.getLast? ≠ some '\n') : (closeLiteral form r e).EndsInline := by
  cases e with
  | closed => exact endsInline_accept _ rfl (h rfl)
  | escape => exact endsInline_reject _ _
  | unclosed => exact endsInline_reject _ _

theorem endsInline_stringLiteral (n : Nat) (t : Text) : (stringLiteral n t).EndsInline := by
  have hquote := openingQuote_ne ((Reading.start t).skip n)
  unfold stringLiteral
  dsimp only
  split
  · refine endsInline_closeLiteral _ fun hclosed => ?_
    obtain ⟨k, hlength, hlast⟩ := exists_tripleBody_eq hclosed
    rw [Reading.getLast?_taken_skip ⟨k, by omega, hlast⟩]
    simpa using hquote
  · refine endsInline_closeLiteral _ fun hclosed => ?_
    obtain ⟨k, hlength, hlast⟩ := exists_lineBody_eq hclosed
    rw [Reading.getLast?_taken_skip ⟨k, by omega, hlast⟩]
    simpa using hquote

/-! ## Line breaks -/

/-- A line feed ends the run of line breaks behind it, or is the end itself. -/
theorem exists_lineFeed_eq {n : Nat} {t : Text} (front : Text)
    (h : 0 < n → ∃ k, n = k + 1 ∧ t[k]? = some '\n') :
    ∃ k, n + (front.length + 1) = k + 1 ∧ (front ++ '\n' :: t)[k]? = some '\n' := by
  cases n with
  | zero => exact ⟨front.length, by omega, by simp⟩
  | succ n =>
    obtain ⟨k, hk, hlast⟩ := h (Nat.succ_pos n)
    refine ⟨front.length + (k + 1), by omega, ?_⟩
    rw [List.getElem?_append_right (by omega), Nat.add_sub_cancel_left]
    exact hlast

/-- A run of newlines ends with a line feed. -/
theorem exists_newlines_eq {t : Text} (h : 0 < newlines t) :
    ∃ k, newlines t = k + 1 ∧ t[k]? = some '\n' := by
  fun_induction newlines t with
  | case1 t ih => exact exists_lineFeed_eq [] ih
  | case2 t ih => exact exists_lineFeed_eq ['\r'] ih
  | case3 t ih => exact exists_lineFeed_eq ['\x0c'] ih
  | case4 t ih => exact exists_lineFeed_eq ['\x0c', '\r'] ih
  | case5 t => contradiction

/-- A run of line breaks ends with a line feed. -/
theorem exists_lineBreaks_eq {t : Text} (h : 0 < lineBreaks t) :
    ∃ k, lineBreaks t = k + 1 ∧ t[k]? = some '\n' := by
  fun_induction lineBreaks t with
  | case1 t ih => exact exists_lineFeed_eq [] ih
  | case2 t ih => exact exists_lineFeed_eq ['\r'] ih
  | case3 t => contradiction

theorem lineBreak_eq_zero_of_lineBreaks {t : Text} (h : lineBreaks t = 0) : lineBreak t = 0 := by
  unfold lineBreaks at h
  split at h
  · omega
  · omega
  · rename_i hn hrn
    unfold lineBreak
    split
    · exact absurd rfl (hn _)
    · exact absurd rfl (hrn _)
    · rfl

/-- A newline is a line break, or a form feed and a line break. -/
theorem exists_lineBreak_of_newlines {t : Text} (h : 0 < newlines t) :
    ∃ onward, 0 < lineBreak onward ∧ (t = onward ∨ t = '\x0c' :: onward) := by
  unfold newlines at h
  split at h
  · exact ⟨_, by simp [lineBreak], .inl rfl⟩
  · exact ⟨_, by simp [lineBreak], .inl rfl⟩
  · exact ⟨_, by simp [lineBreak], .inr rfl⟩
  · exact ⟨_, by simp [lineBreak], .inr rfl⟩
  · contradiction

theorem lays_newline {s : Surroundings} {t : Text} (h : 0 < newlines t) (visible : Bool) :
    (newline visible t).Lays s := by
  rintro _ ⟨⟩
  obtain ⟨onward, hbreak, ht⟩ := exists_lineBreak_of_newlines h
  refine .newline onward rfl hbreak ?_ (Reading.getLast?_taken_skip (exists_newlines_eq h))
  rwa [whole_newline]

/-! ## Comments -/

/-- The front of a line has no line feed, -/
theorem not_mem_take_lineLength (t : Text) : '\n' ∉ t.take (lineLength t) := by
  fun_induction lineLength t with
  | case1 => exact List.not_mem_nil
  | case2 t => exact List.not_mem_nil
  | case3 t => exact List.not_mem_nil
  | case4 c t hn _ ih =>
    intro hmem
    rcases List.mem_cons.mp hmem with rfl | htail
    · exact hn rfl
    · exact ih htail

/-- and behind it is a line break or the end. -/
theorem drop_lineLength (t : Text) :
    t.drop (lineLength t) = [] ∨ 0 < lineBreaks (t.drop (lineLength t)) := by
  fun_induction lineLength t with
  | case1 => exact .inl rfl
  | case2 t => exact .inr (by simp [lineBreaks])
  | case3 t => exact .inr (by simp [lineBreaks])
  | case4 c t _ _ ih => simpa using ih

/-- A comment at the start of a line ends with a line feed or at the end of the source. -/
theorem lineComment_ends (r : Reading) :
    (lineComment r).reading.taken.getLast? = some '\n' ∨ (lineComment r).reading.left = [] := by
  simp only [lineComment, Scan.reading_accept]
  by_cases hbreaks : 0 < lineBreaks (commentText r).left
  · exact .inl (Reading.getLast?_taken_skip (exists_lineBreaks_eq hbreaks))
  · have hend : (commentText r).left = [] := (drop_lineLength _).resolve_right hbreaks
    exact .inr (by simp [Reading.skip, hend])

theorem lays_comment (s : Surroundings) (t : Text) : (comment s.lineStart ('#' :: t)).Lays s := by
  unfold comment
  split
  · rename_i hstart
    rintro _ ⟨⟩
    exact .lineComment rfl hstart (lineComment_ends _)
  · rename_i hstart
    rintro _ ⟨⟩
    refine .comment rfl (by simpa using hstart) (by simp) ?_
    simpa [Reading.Inline, commentText, Reading.start, Reading.skip] using
      not_mem_take_lineLength t

/-! ## Space -/

theorem isBlank_of_isIndent {c : Char} (h : isIndent c = true) : isBlank c = true := by
  simp only [isBlank, isIndent, Bool.or_eq_true] at h ⊢
  exact .inl h

/-- Space that does not indent is a form feed. -/
theorem eq_formFeed {c : Char} (hblank : isBlank c = true) (hindent : isIndent c = false) :
    c = '\x0c' := by
  simp only [isIndent, Bool.or_eq_false_iff] at hindent
  simpa [isBlank, hindent.1, hindent.2] using hblank

theorem lays_blank {s : Surroundings} {c : Char} {t : Text} (hc : isBlank c = true)
    (hindent : s.lineStart = true → isIndent c = false) : (blank (c :: t)).Lays s := by
  rintro _ ⟨⟩
  refine .blank rfl (fun d hd => List.mem_takeWhile_imp hd) (fun hstart _ => ?_)
  rw [whole_blank, List.head?_cons, eq_formFeed hc (hindent hstart)]

/-- Indentation takes the line breaks behind it, if there are some. -/
theorem lays_indentation {s : Surroundings} {t : Text} (hstart : s.lineStart = true)
    (hbrackets : s.inBrackets = false) (hne : t.takeWhile isIndent ≠ [])
    (hhash : (t.dropWhile isIndent).head? ≠ some '#') :
    (indentation ((Reading.start t).takeWhile isIndent)
      (indentWidth (t.takeWhile isIndent))).Lays s := by
  rintro _ ⟨⟩
  have hwhole : (indentation ((Reading.start t).takeWhile isIndent)
      (indentWidth (t.takeWhile isIndent))).reading.whole = t := by
    simp [indentation]
  refine .indentation ((t.dropWhile isIndent).take (lineBreaks (t.dropWhile isIndent))) rfl hstart
    hbrackets ?_ ?_ ?_ ?_
  · rwa [hwhole]
  · rw [hwhole]
    rfl
  · rw [hwhole]
  · by_cases hbreaks : lineBreaks (t.dropWhile isIndent) = 0
    · have hzero := lineBreak_eq_zero_of_lineBreaks hbreaks
      refine .inl ⟨by rw [hbreaks]; rfl, ?_, ?_⟩
      · simpa [indentation, Reading.skip, Reading.takeWhile, Reading.start, hbreaks] using hzero
      · simpa [indentation, Reading.skip, Reading.takeWhile, Reading.start, hbreaks] using hhash
    · obtain ⟨k, hk, hlast⟩ := exists_lineBreaks_eq (Nat.pos_of_ne_zero hbreaks)
      exact .inr (by simp [hk, List.take_add_one, hlast])

theorem lays_lineSpace {s : Surroundings} {c : Char} (t : Text) (hstart : s.lineStart = true)
    (hc : isIndent c = true) : (lineSpace s.inBrackets (c :: t)).Lays s := by
  have hne : (c :: t).takeWhile isIndent ≠ [] := by simp [hc]
  unfold lineSpace
  dsimp only
  split
  · rintro _ ⟨⟩
    exact .lineComment rfl hstart (lineComment_ends _)
  · rename_i hhash
    split
    · rename_i hbrackets
      rintro _ ⟨⟩
      refine .blank rfl (fun d hd => ?_) (fun _ hout => ?_)
      · exact isBlank_of_isIndent (List.mem_takeWhile_imp hd)
      · rw [hbrackets] at hout
        contradiction
    · rename_i hbrackets
      refine lays_indentation hstart (by simpa using hbrackets) hne fun hhead => hhash ?_
      simp only [Reading.sees, Reading.takeWhile, Reading.start, hhead]
      rfl

theorem lays_continuation (s : Surroundings) (t : Text) : (continuation t).Lays s := by
  intro lexeme hresult
  refine .continuation ?_
  unfold continuation at hresult
  dsimp only at hresult
  split at hresult
  · contradiction
  · contradiction
  · obtain rfl := Except.ok.inj hresult
    rfl

end Rule

/-- **The lexeme of the chosen rule makes of the line what its kind says.** -/
theorem lays_scan (s : Surroundings) (c : Char) (t : Text) : (scan s c t).Lays s := by
  unfold scan
  dsimp only
  split
  · exact Rule.lays_newline (by assumption) _
  split
  · rename_i h
    obtain ⟨hstart, hc⟩ := Bool.and_eq_true_iff.mp h
    exact Rule.lays_lineSpace t hstart hc
  rename_i hindent
  split
  · exact Rule.lays_blank (by assumption) (by simpa using hindent)
  rename_i hblank
  split
  · rename_i hc
    subst hc
    exact Rule.lays_comment s t
  split
  · exact Rule.lays_continuation s _
  split
  · exact (Rule.endsInline_stringLiteral _ _).lays (Rule.whole_stringLiteral ..) hblank
  split
  · exact (Rule.endsInline_stringLiteral _ _).lays (Rule.whole_stringLiteral ..) hblank
  split
  · exact (Rule.staysInline_word _).endsInline.lays (Rule.whole_word ..) hblank
  split
  · exact (Rule.staysInline_number _).endsInline.lays (Rule.whole_number ..) hblank
  · exact (Rule.staysInline_symbol _ _).endsInline.lays (Rule.whole_symbol ..) hblank

end Lexis
