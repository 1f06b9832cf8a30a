import Lexis.Proofs.Lexeme

/-!
# Which rule is chosen

The rule for a text is chosen by a cascade of tests, and a proof about all rules would go through
the whole cascade again and again. Here it is turned into a list of cases. Each case names what
makes its rule the chosen one, so it can be read in both directions: from the outcome to the rule,
and from what a text starts with to the outcome.

* `isTelling`: the characters that decide against the rule for symbols, whatever follows them.
* `Choice`: the cases, with those for code as `CodeChoice`. `choice_scan` says that one of them
  applies, `Choice.scan_eq` that it settles the outcome.
* `Rule.newlines_cons_eq_zero`: a newline starts with one of three characters.
-/

namespace Lexis

/-- A character of a class is none that is outside of it. -/
theorem ne_of_class {p : Char → Bool} {c d : Char} (hc : p c = true) (hd : p d = false) :
    c ≠ d := by
  rintro rfl
  rw [hc] at hd
  contradiction

/-- Whether a character decides on a rule other than that for symbols. -/
def isTelling (c : Char) : Bool :=
  isBlank c || c = '#' || c = '\\' || isQuote c || isIdentStart c || c.isDigit

/-- Whether a number can start with the character. -/
def isNumeric (c : Char) : Bool := c.isDigit || c = '.'

namespace Rule

theorem newlines_cons_eq_zero {c : Char} (t : Text) (hn : c ≠ '\n') (hr : c ≠ '\r')
    (hf : c ≠ '\x0c') : newlines (c :: t) = 0 := by
  unfold newlines
  split <;> simp_all

/-- Space at the start of a line is no newline. -/
theorem newlines_of_isIndent {c : Char} (t : Text) (h : isIndent c = true) :
    newlines (c :: t) = 0 :=
  newlines_cons_eq_zero t (ne_of_class h (by decide)) (ne_of_class h (by decide))
    (ne_of_class h (by decide))

/-- A prefix of a literal starts with one of two letters. -/
theorem isIdentStart_of_literalPrefix? {c : Char} {t : Text} {n : Nat}
    (h : literalPrefix? (c :: t) = some n) : isIdentStart c = true := by
  unfold literalPrefix? at h
  split at h
  · rename_i heq
    rw [(List.cons.inj heq).1]
    decide
  · rename_i heq
    rw [(List.cons.inj heq).1]
    decide
  · rename_i heq
    rw [(List.cons.inj heq).1]
    decide
  · contradiction

/-- The outcome for the text `c :: t` if no layout is in front of it. -/
def code (c : Char) (t : Text) : Scan :=
  if isQuote c then stringLiteral 0 (c :: t)
  else match literalPrefix? (c :: t) with
    | some n => stringLiteral n (c :: t)
    | none =>
      if isIdentStart c then word (c :: t)
      else if c.isDigit || startsFraction (c :: t) then number (c :: t)
      else symbol c (c :: t)

end Rule

/-- The choice of a rule for code, with its outcome. It depends on the text `c :: t` alone. -/
inductive CodeChoice (c : Char) (t : Text) : Scan → Prop
  /-- A quote. -/
  | quoted (hc : isQuote c = true) : CodeChoice c t (Rule.stringLiteral 0 (c :: t))
  /-- A prefix and a quote. -/
  | prefixed {n : Nat} (hn : Rule.literalPrefix? (c :: t) = some n) :
      CodeChoice c t (Rule.stringLiteral n (c :: t))
  /-- A letter or an underscore, without a quote. -/
  | word (hnone : Rule.literalPrefix? (c :: t) = none) (hc : isIdentStart c = true) :
      CodeChoice c t (Rule.word (c :: t))
  /-- A digit, or a point and a digit. -/
  | number (hc : (c.isDigit || startsFraction (c :: t)) = true) :
      CodeChoice c t (Rule.number (c :: t))
  /-- Anything else. -/
  | symbol (hbreak : Rule.newlines (c :: t) = 0) (hc : isTelling c = false)
      (hpoint : startsFraction (c :: t) = false) : CodeChoice c t (Rule.symbol c (c :: t))

/-- The choice of the rule for the text `c :: t`, with its outcome. -/
inductive Choice (s : Surroundings) (c : Char) (t : Text) : Scan → Prop
  /-- A line break, with or without a form feed in front. -/
  | newline (hbreak : 0 < Rule.newlines (c :: t)) :
      Choice s c t (Rule.newline s.endsLine (c :: t))
  /-- Space that starts a line. -/
  | lineSpace (hstart : s.lineStart = true) (hc : isIndent c = true) :
      Choice s c t (Rule.lineSpace s.inBrackets (c :: t))
  /-- Space behind something on its line, or behind a form feed. -/
  | blank (hbreak : Rule.newlines (c :: t) = 0) (hc : isBlank c = true)
      (hindent : s.lineStart = true → isIndent c = false) : Choice s c t (Rule.blank (c :: t))
  /-- A hash sign. -/
  | comment (hc : c = '#') : Choice s c t (Rule.comment s.lineStart (c :: t))
  /-- A backslash. -/
  | continuation (hc : c = '\\') : Choice s c t (Rule.continuation (c :: t))
  /-- No layout. -/
  | code {r : Scan} (h : CodeChoice c t r) : Choice s c t r

theorem choice_scan (s : Surroundings) (c : Char) (t : Text) : Choice s c t (scan s c t) := by
  unfold scan
  dsimp only
  split
  · exact .newline (by assumption)
  rename_i hbreak
  split
  · rename_i h
    exact .lineSpace (Bool.and_eq_true_iff.mp h).1 (Bool.and_eq_true_iff.mp h).2
  rename_i hindent
  split
  · exact .blank (by omega) (by assumption) (by simpa using hindent)
  rename_i hblank
  split
  · exact .comment (by assumption)
  rename_i hhash
  split
  · exact .continuation (by assumption)
  rename_i hslash
  refine .code ?_
  split
  · exact .quoted (by assumption)
  rename_i hquote
  split
  · exact .prefixed (by assumption)
  rename_i hnone
  split
  · exact .word hnone (by assumption)
  rename_i hstart
  split
  · exact .number (by assumption)
  rename_i hdigit
  obtain ⟨hdigit, hpoint⟩ := Bool.or_eq_false_iff.mp (Bool.not_eq_true _ ▸ hdigit)
  exact .symbol (by omega) (by simp [isTelling, *]) hpoint

/-! ## From the case to the outcome -/

section

variable {s : Surroundings} {c : Char} {t : Text}

/-- Behind the tests for layout the outcome depends on the text alone. -/
theorem scan_of_code (hbreak : Rule.newlines (c :: t) = 0) (hblank : isBlank c = false)
    (hhash : c ≠ '#') (hslash : c ≠ '\\') : scan s c t = Rule.code c t := by
  have hindent : isIndent c = false := by
    simp only [isBlank, isIndent, Bool.or_eq_false_iff] at hblank ⊢
    exact hblank.1
  unfold scan
  dsimp only
  rw [if_neg (by omega), if_neg (by simp [hindent]), if_neg (by simp [hblank]), if_neg hhash,
    if_neg hslash]
  rfl

/-- A class of characters without layout leads behind the tests for layout. -/
theorem scan_of_class {p : Char → Bool} (hc : p c = true)
    (hp : ['\n', '\r', '\x0c', ' ', '\t', '#', '\\'].all (!p ·) = true) :
    scan s c t = Rule.code c t := by
  have hne : ∀ d ∈ ['\n', '\r', '\x0c', ' ', '\t', '#', '\\'], c ≠ d := by
    intro d hd
    exact ne_of_class hc (by simpa using List.all_eq_true.mp hp d hd)
  refine scan_of_code (Rule.newlines_cons_eq_zero t ?_ ?_ ?_) ?_ ?_ ?_
  · exact hne _ (by decide)
  · exact hne _ (by decide)
  · exact hne _ (by decide)
  · simp [isBlank, hne]
  · exact hne _ (by decide)
  · exact hne _ (by decide)

theorem isQuote_of_isIdentStart (hc : isIdentStart c = true) : isQuote c = false := by
  have hsingle : c ≠ '\'' := ne_of_class hc (by decide)
  have hdouble : c ≠ '"' := ne_of_class hc (by decide)
  simp [isQuote, hsingle, hdouble]

/-- The letters come behind the digits. -/
theorem isIdentStart_of_isDigit (hc : c.isDigit = true) : isIdentStart c = false := by
  have hne : c ≠ '_' := ne_of_class hc (by decide)
  have hle : c.val ≤ '9'.val := of_decide_eq_true (Bool.and_eq_true_iff.mp hc).2
  have hupper : c.isUpper = false :=
    decide_eq_false fun h => absurd (UInt32.le_trans h.1 hle) (by decide)
  have hlower : c.isLower = false :=
    Bool.and_eq_false_imp.mpr fun h =>
      absurd (UInt32.le_trans (a := 'a'.val) (of_decide_eq_true h) hle) (by decide)
  exact Bool.or_eq_false_iff.mpr ⟨Bool.or_eq_false_iff.mpr ⟨hupper, hlower⟩, decide_eq_false hne⟩

theorem literalPrefix?_eq_none (hc : isIdentStart c = false) :
    Rule.literalPrefix? (c :: t) = none := by
  cases hprefix : Rule.literalPrefix? (c :: t) with
  | none => rfl
  | some n =>
    rw [Rule.isIdentStart_of_literalPrefix? hprefix] at hc
    contradiction

/-- The first character of a number is no layout, no quote and no letter. -/
theorem scan_of_number (hc : (c.isDigit || startsFraction (c :: t)) = true) :
    scan s c t = Rule.number (c :: t) := by
  have hclass : isNumeric c = true := by
    rcases Bool.or_eq_true_iff.mp hc with hdigit | hpoint
    · simp [isNumeric, hdigit]
    · simp [isNumeric, eq_dot_of_startsFraction hpoint]
  have hquote : isQuote c = false := by
    have hsingle : c ≠ '\'' := ne_of_class hclass (by decide)
    have hdouble : c ≠ '"' := ne_of_class hclass (by decide)
    simp [isQuote, hsingle, hdouble]
  have hletter : isIdentStart c = false := by
    rcases Bool.or_eq_true_iff.mp hc with hdigit | hpoint
    · exact isIdentStart_of_isDigit hdigit
    · rw [eq_dot_of_startsFraction hpoint]
      decide
  rw [scan_of_class hclass (by decide), Rule.code, hquote, literalPrefix?_eq_none hletter, hletter]
  exact if_pos hc

theorem scan_of_symbol (hbreak : Rule.newlines (c :: t) = 0) (hc : isTelling c = false)
    (hpoint : startsFraction (c :: t) = false) : scan s c t = Rule.symbol c (c :: t) := by
  simp only [isTelling, Bool.or_eq_false_iff, decide_eq_false_iff_not] at hc
  obtain ⟨⟨⟨⟨⟨hblank, hhash⟩, hslash⟩, hquote⟩, hletter⟩, hdigit⟩ := hc
  rw [scan_of_code hbreak hblank hhash hslash, Rule.code, hquote, literalPrefix?_eq_none hletter,
    hletter, hdigit, hpoint]
  rfl

/-- Code is read in all surroundings alike. -/
theorem CodeChoice.scan_eq {r : Scan} (h : CodeChoice c t r) (s : Surroundings) :
    scan s c t = r := by
  cases h with
  | quoted hc => rw [scan_of_class hc (by decide), Rule.code, if_pos hc]
  | prefixed hn =>
    have hc := Rule.isIdentStart_of_literalPrefix? hn
    rw [scan_of_class hc (by decide), Rule.code, isQuote_of_isIdentStart hc, hn]
    rfl
  | word hnone hc =>
    rw [scan_of_class hc (by decide), Rule.code, isQuote_of_isIdentStart hc, hnone]
    exact if_pos hc
  | number hc => exact scan_of_number hc
  | symbol hbreak hc hpoint => exact scan_of_symbol hbreak hc hpoint

/-- **The case settles the outcome.** -/
theorem Choice.scan_eq {r : Scan} (h : Choice s c t r) : scan s c t = r := by
  cases h with
  | newline hbreak => simp [scan, hbreak]
  | lineSpace hstart hc => simp [scan, Rule.newlines_of_isIndent t hc, hstart, hc]
  | blank hbreak hc hindent =>
    have hand : (s.lineStart && isIndent c) = false := by
      cases hstart : s.lineStart with
      | false => rfl
      | true => simpa using hindent hstart
    simp [scan, hbreak, hand, hc]
  | comment hc =>
    subst hc
    simp [scan, Rule.newlines, isIndent, isBlank]
  | continuation hc =>
    subst hc
    simp [scan, Rule.newlines, isIndent, isBlank]
  | code h => exact h.scan_eq s

end

end Lexis
