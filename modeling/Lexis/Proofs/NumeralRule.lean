import Lexis.Proofs.Numeral
import Lexis.Proofs.Session

/-!
# The rule for numbers

The rule for numbers is a cascade of tests on the characters ahead. It comes to what the grammar of
numbers says: a number is refused exactly if it is malformed, and otherwise the longest number is
taken, whichever parts of it look like parts of another.

* `Numeral.Choice`: the outcomes of the rule, with what led to them. `Numeral.choice_number` says
  that there are no others.
* `Numeral.malformed_hex_iff`, `Numeral.malformed_exponent_iff`, `Numeral.malformed_suffix_iff`:
  what is wrong with a number, as the rule finds it.
* `Numeral.isLongest_hex`, `Numeral.isLongest_decimal`: what is taken is the longest number.
* `Numeral.result_number`: the rule follows the grammar.
* `Lexer.ReadsNumeral`: so does a lexer. `Lexer.readsNumeral_of_reachable` says this of the lexers
  of a session.
-/

namespace Lexis

open Grammar Rule

namespace Numeral

variable {t : Text}

/-! ## Markers and exponents -/

theorem startsHex_iff_exists : startsHex t = true ↔
    ∃ c rest, isHexMarker c = true ∧ t = '0' :: c :: rest := by
  rw [startsHex_iff]
  constructor
  · rintro (⟨rest, rfl⟩ | ⟨rest, rfl⟩)
    · exact ⟨'x', rest, rfl, rfl⟩
    · exact ⟨'X', rest, rfl, rfl⟩
  · rintro ⟨c, rest, hc, rfl⟩
    simp only [isHexMarker, Bool.or_eq_true, decide_eq_true_eq] at hc
    rcases hc with rfl | rfl
    · exact .inl ⟨rest, rfl⟩
    · exact .inr ⟨rest, rfl⟩

theorem mem_hexMarker_iff {w : Text} :
    w ∈ hexMarker ↔ ∃ c, isHexMarker c = true ∧ w = ['0', c] := by
  constructor
  · intro hw
    obtain ⟨_, rfl, _, ⟨c, hc, rfl⟩, rfl⟩ := Language.mem_mul.mp hw
    exact ⟨c, hc, rfl⟩
  · rintro ⟨c, hc, rfl⟩
    exact Language.mem_mul.mpr ⟨['0'], rfl, [c], ⟨c, hc, rfl⟩, rfl⟩

theorem starts_hexMarker_iff : Starts hexMarker t ↔ startsHex t = true := by
  rw [startsHex_iff_exists]
  constructor
  · rintro ⟨w, hw, rest, rfl⟩
    obtain ⟨c, hc, rfl⟩ := mem_hexMarker_iff.mp hw
    exact ⟨c, rest, hc, rfl⟩
  · rintro ⟨c, rest, hc, rfl⟩
    exact ⟨['0', c], mem_hexMarker_iff.mpr ⟨c, hc, rfl⟩, rest, rfl⟩

/-- A marker without a hexadecimal digit. -/
theorem malformed_hex_iff : Malformed t .missingHexDigits ↔
    startsHex t = true ∧ ((Reading.start t).skip 2).sees isHexDigit = false := by
  rw [Malformed, starts_hexMarker_iff, and_congr_right_iff]
  intro hhex
  obtain ⟨c, rest, hc, rfl⟩ := startsHex_iff_exists.mp hhex
  rw [← Bool.not_eq_true, not_iff_not]
  constructor
  · rintro ⟨w, hw, hprefix⟩
    obtain ⟨a, ha, _, ⟨d, hd, rfl⟩, rfl⟩ := Language.mem_mul.mp hw
    obtain ⟨e, -, rfl⟩ := mem_hexMarker_iff.mp ha
    have hrest : e = c ∧ [d] <+: rest := by simpa using hprefix
    exact Reading.sees_of_isPrefix hd hrest.2
  · intro hsees
    obtain ⟨d, left, rfl⟩ := List.exists_cons_of_ne_nil (Reading.left_ne_nil_of_sees hsees)
    refine ⟨['0', c, d], ?_, left, rfl⟩
    exact Language.mem_mul.mpr
      ⟨['0', c], mem_hexMarker_iff.mpr ⟨c, hc, rfl⟩, [d], ⟨d, hsees, rfl⟩, rfl⟩

theorem mem_exponent_iff {w : Text} : w ∈ exponent ↔ ∃ c s d, isExponentMarker c = true ∧
    (s = [] ∨ ∃ g, isSign g = true ∧ s = [g]) ∧ d ∈ digits ∧ w = c :: (s ++ d) := by
  constructor
  · intro hw
    obtain ⟨a, ha, d, hd, rfl⟩ := Language.mem_mul.mp hw
    obtain ⟨_, ⟨c, hc, rfl⟩, s, hs, rfl⟩ := Language.mem_mul.mp ha
    exact ⟨c, s, d, hc, hs, hd, rfl⟩
  · rintro ⟨c, s, d, hc, hs, hd, rfl⟩
    refine Language.mem_mul.mpr ⟨c :: s, ?_, d, hd, rfl⟩
    exact Language.mem_mul.mpr ⟨[c], ⟨c, hc, rfl⟩, s, hs, rfl⟩

/-- An exponent is read exactly if it has digits. -/
theorem starts_exponent_iff (r : Reading) : Starts exponent r.left ↔
    r.sees isExponentMarker = true ∧ (exponentMarker r).sees Char.isDigit = true := by
  obtain ⟨taken, left⟩ := r
  constructor
  · rintro ⟨w, hw, rest, hrest⟩
    obtain ⟨c, s, d, hc, hs, ⟨hne, hd⟩, rfl⟩ := mem_exponent_iff.mp hw
    obtain ⟨e, d, rfl⟩ := List.exists_cons_of_ne_nil hne
    have he : e.isDigit = true := hd e List.mem_cons_self
    obtain rfl : c :: (s ++ e :: d) ++ rest = left := hrest
    refine ⟨hc, ?_⟩
    rcases hs with rfl | ⟨g, hg, rfl⟩
    · simp [exponentMarker, Reading.takeIf, Reading.sees, Reading.skip, isSign_of_isDigit he, he]
    · simp [exponentMarker, Reading.takeIf, Reading.sees, Reading.skip, hg, he]
  · rintro ⟨hmarker, hdigit⟩
    obtain ⟨c, left, rfl⟩ := List.exists_cons_of_ne_nil (Reading.left_ne_nil_of_sees hmarker)
    unfold exponentMarker Reading.takeIf at hdigit
    split at hdigit
    · rename_i hsign
      obtain ⟨g, left, rfl⟩ := List.exists_cons_of_ne_nil (Reading.left_ne_nil_of_sees hsign)
      obtain ⟨d, left, rfl⟩ := List.exists_cons_of_ne_nil (Reading.left_ne_nil_of_sees hdigit)
      exact ⟨[c, g, d], mem_exponent_iff.mpr ⟨c, [g], [d], hmarker, .inr ⟨g, hsign, rfl⟩,
        singleton_mem_many1 hdigit, rfl⟩, left, rfl⟩
    · obtain ⟨d, left, rfl⟩ := List.exists_cons_of_ne_nil (Reading.left_ne_nil_of_sees hdigit)
      exact ⟨[c, d], mem_exponent_iff.mpr ⟨c, [], [d], hmarker, .inl rfl,
        singleton_mem_many1 hdigit, rfl⟩, left, rfl⟩

/-! ## What is read -/

/-- The text starts with a digit, or with a point and a digit. -/
def StartsNumeral (t : Text) : Prop := Starts (one Char.isDigit + point * one Char.isDigit) t

/-- The first digits of a number, or the point that it starts with. -/
theorem takeWhile_of_startsNumeral (h : StartsNumeral t) :
    t.takeWhile Char.isDigit ∈ digits ∨
      ∃ d u, d.isDigit = true ∧ t = '.' :: d :: u ∧ t.takeWhile Char.isDigit = [] := by
  obtain ⟨w, hw, rest, rfl⟩ := h
  rcases hw with ⟨c, hc, rfl⟩ | hw
  · refine .inl ⟨?_, fun d hd => List.mem_takeWhile_imp hd⟩
    simp [hc]
  · obtain ⟨_, rfl, _, ⟨d, hd, rfl⟩, rfl⟩ := Language.mem_mul.mp hw
    exact .inr ⟨d, rest, hd, rfl, rfl⟩

/-- Up to its exponent, a number is a float if it has a point, and has digits only if not. -/
theorem mantissaReading_mem (h : StartsNumeral t) :
    (mantissaReading t).taken ∈
      if ((Reading.start t).takeWhile Char.isDigit).sees (· = '.') then
        point * digits + digits * point * many Char.isDigit
      else digits := by
  unfold mantissaReading fraction
  split
  · rename_i hsees
    obtain ⟨c, left, hleft⟩ := List.exists_cons_of_ne_nil (Reading.left_ne_nil_of_sees hsees)
    obtain rfl : c = '.' := by simpa [Reading.sees, hleft] using hsees
    rw [Reading.takeWhile, Reading.skip, hleft]
    have hmany : left.takeWhile Char.isDigit ∈ many Char.isDigit :=
      fun c hc => List.mem_takeWhile_imp hc
    rcases takeWhile_of_startsNumeral h with hdigits | ⟨d, u, hd, rfl, hnil⟩
    · exact .inr (Language.append_mem_mul (Language.append_mem_mul hdigits rfl) hmany)
    · obtain rfl : d :: u = left := (List.cons.inj hleft).2
      refine .inl (Language.append_mem_mul (a := ['.']) rfl ⟨?_, hmany⟩)
      simp [hd]
  · rename_i hsees
    rcases takeWhile_of_startsNumeral h with hdigits | ⟨d, u, hd, rfl, hnil⟩
    · exact hdigits
    · exact absurd rfl hsees

/-- What is read of an exponent with digits. -/
theorem exists_mem_exponent {r : Reading} (h : Starts exponent r.left) :
    ∃ x ∈ exponent, ((exponentMarker r).takeWhile Char.isDigit).taken = r.taken ++ x := by
  obtain ⟨hmarker, hdigit⟩ := (starts_exponent_iff r).mp h
  have hdigits := takeWhile_mem_many1 hdigit
  obtain ⟨taken, left⟩ := r
  obtain ⟨c, left, rfl⟩ := List.exists_cons_of_ne_nil (Reading.left_ne_nil_of_sees hmarker)
  have hsign : ∃ s, (s = [] ∨ ∃ g, isSign g = true ∧ s = [g]) ∧
      (exponentMarker ⟨taken, c :: left⟩).taken = taken ++ c :: s := by
    unfold exponentMarker Reading.takeIf
    split
    · rename_i hsees
      obtain ⟨g, left, rfl⟩ := List.exists_cons_of_ne_nil (Reading.left_ne_nil_of_sees hsees)
      exact ⟨[g], .inr ⟨g, hsees, rfl⟩, by simp [Reading.skip]⟩
    · exact ⟨[], .inl rfl, rfl⟩
  obtain ⟨s, hs, htaken⟩ := hsign
  refine ⟨_, mem_exponent_iff.mpr ⟨c, s, _, hmarker, hs, hdigits, rfl⟩, ?_⟩
  rw [Reading.takeWhile, htaken, List.append_assoc]
  rfl

/-! ## The choices of the rule -/

/-- What the rule for numbers makes of a text, and why. -/
inductive Choice (t : Text) : Scan → Prop
  /-- A marker without a hexadecimal digit. -/
  | noHexDigits (hhex : startsHex t = true)
      (hsees : ((Reading.start t).skip 2).sees isHexDigit = false) :
      Choice t (.reject (.malformedNumber .missingHexDigits) ((Reading.start t).skip 2))
  /-- A hexadecimal integer. -/
  | hex (hhex : startsHex t = true) (hsees : ((Reading.start t).skip 2).sees isHexDigit = true)
      (hmem : (hexReading t).taken ∈ int) : Choice t (integer (hexReading t))
  /-- The marker of an exponent without a digit. -/
  | noExponentDigits (hhex : startsHex t = false)
      (hmarker : (mantissaReading t).sees isExponentMarker = true)
      (hexponent : ¬ Starts exponent (mantissaReading t).left) :
      Choice t (.reject (.malformedNumber .missingExponentDigits)
        (exponentMarker (mantissaReading t)))
  /-- A float. -/
  | float (hhex : startsHex t = false) (hmem : (bareReading t).taken ∈ float)
      (hexponent : (mantissaReading t).sees isExponentMarker = true →
        Starts exponent (mantissaReading t).left) :
      Choice t (Rule.float (bareReading t))
  /-- A decimal integer. -/
  | decimal (hhex : startsHex t = false) (hmem : (bareReading t).taken ∈ digits)
      (hmarker : (mantissaReading t).sees isExponentMarker = false) :
      Choice t (integer (bareReading t))

theorem hexReading_mem (hhex : startsHex t = true)
    (hsees : ((Reading.start t).skip 2).sees isHexDigit = true) : (hexReading t).taken ∈ int := by
  obtain ⟨c, rest, hc, rfl⟩ := startsHex_iff_exists.mp hhex
  exact .inl (Language.append_mem_mul (mem_hexMarker_iff.mpr ⟨c, hc, rfl⟩)
    (takeWhile_mem_many1 hsees))

/-- **One of the choices is made.** -/
theorem choice_number (h : StartsNumeral t) : Choice t (number t) := by
  have hmantissa := mantissaReading_mem h
  by_cases hhex : startsHex t = true
  · rw [number, if_pos hhex]
    unfold hexInteger
    dsimp only
    split
    · rename_i hsees
      exact .hex hhex hsees (hexReading_mem hhex hsees)
    · rename_i hsees
      exact .noHexDigits hhex (by simpa using hsees)
  rw [number, if_neg hhex]
  replace hhex : startsHex t = false := by simpa using hhex
  by_cases hmarker : (mantissaReading t).sees isExponentMarker = true
  · have hbare : bareReading t = (exponentMarker (mantissaReading t)).takeWhile Char.isDigit :=
      if_pos hmarker
    have hdecimal : decimal t = if (exponentMarker (mantissaReading t)).sees Char.isDigit then
        Rule.float (bareReading t)
        else .reject (.malformedNumber .missingExponentDigits)
          (exponentMarker (mantissaReading t)) := by
      rw [hbare]
      exact if_pos hmarker
    rw [hdecimal]
    split
    · rename_i hdigit
      have hexponent := (starts_exponent_iff _).mpr ⟨hmarker, hdigit⟩
      refine .float hhex ?_ fun _ => hexponent
      obtain ⟨x, hx, htaken⟩ := exists_mem_exponent hexponent
      rw [float_eq, hbare, htaken]
      split at hmantissa
      · exact .inl (Language.append_mem_mul hmantissa (.inr hx))
      · exact .inr (Language.append_mem_mul hmantissa hx)
    · rename_i hdigit
      refine .noExponentDigits hhex hmarker fun hexponent => ?_
      exact hdigit ((starts_exponent_iff _).mp hexponent).2
  · have hbare : bareReading t = mantissaReading t := if_neg hmarker
    have hdecimal : decimal t =
        if ((Reading.start t).takeWhile Char.isDigit).sees (· = '.') then
          Rule.float (bareReading t)
        else integer ((Reading.start t).takeWhile Char.isDigit) := by
      rw [hbare]
      exact if_neg hmarker
    rw [hdecimal]
    split
    · rename_i hpoint
      rw [if_pos hpoint] at hmantissa
      refine .float hhex ?_ fun hpos => absurd hpos hmarker
      rw [float_eq, hbare]
      exact .inl (mem_mul_optional hmantissa)
    · rename_i hpoint
      rw [if_neg hpoint] at hmantissa
      have hwhole : bareReading t = (Reading.start t).takeWhile Char.isDigit :=
        hbare.trans (if_neg hpoint)
      rw [← hwhole]
      exact .decimal hhex (hbare ▸ hmantissa) (by simpa using hmarker)

/-! ## Malformed numbers -/

theorem mantissaReading_isLongest (h : StartsNumeral t) :
    IsLongest mantissa t (mantissaReading t).taken := by
  refine (munches_mantissa t).isLongest ?_
  have hmem := mantissaReading_mem h
  split at hmem
  · rcases hmem with hmem | hmem
    · exact .inr hmem
    · exact .inl (.inr hmem)
  · exact mem_mantissa_of_digits hmem

/-- An exponent without digits. -/
theorem malformed_exponent_iff (h : StartsNumeral t) : Malformed t .missingExponentDigits ↔
    startsHex t = false ∧ (mantissaReading t).sees isExponentMarker = true ∧
      ¬ Starts exponent (mantissaReading t).left := by
  have hlongest := mantissaReading_isLongest h
  have hsplit := (munches_mantissa t).taken_append_left
  rw [Malformed, starts_hexMarker_iff, Bool.not_eq_true, and_congr_right_iff]
  intro _
  constructor
  · rintro ⟨w, rest, hw, ht, hmarker, hexponent⟩
    obtain rfl := hw.unique hlongest
    obtain rfl := List.append_cancel_left (hsplit.trans ht)
    exact ⟨starts_one_iff.mp hmarker, hexponent⟩
  · rintro ⟨hmarker, hexponent⟩
    exact ⟨_, _, hlongest, hsplit.symm, starts_one_iff.mpr hmarker, hexponent⟩

/-- No float is in front of a text that starts as a hexadecimal integer. -/
theorem not_isPrefix_of_startsHex (hhex : startsHex t = true) {w : Text} (hw : w ∈ float) :
    ¬ w <+: t := by
  obtain ⟨c, rest, hc, rfl⟩ := startsHex_iff_exists.mp hhex
  intro hprefix
  obtain ⟨d, hd, hdigit⟩ := exists_not_isDigit_of_float hw
  have hinner : isInner c = false := not_of_class mem_of_isHexMarker (by decide) hc
  have hcw : c ∉ w := fun hmem => by
    rw [within_float w hw c hmem] at hinner
    contradiction
  -- so the text ends in front of the marker, and has digits only
  cases w with
  | nil => contradiction
  | cons a w =>
    obtain ⟨rfl, hrest⟩ := List.cons_prefix_cons.mp hprefix
    cases w with
    | nil =>
      obtain rfl := List.mem_singleton.mp hd
      contradiction
    | cons b w =>
      obtain ⟨rfl, -⟩ := List.cons_prefix_cons.mp hrest
      simp at hcw

/-- Behind a number without a suffix, the marker of an exponent would have been a part of it. -/
theorem starts_exponent_of_eq {w rest : Text} {c : Char} (hw : w ∈ mantissa * (1 + exponent))
    (hc : isInner c = false) (ht : t = w ++ c :: rest)
    (hmarker : (mantissaReading t).sees isExponentMarker = true) :
    Starts exponent (mantissaReading t).left := by
  obtain ⟨a, ha, x, hx, rfl⟩ := Language.mem_mul.mp hw
  rcases hx with rfl | hx
  · rw [List.append_nil] at ht
    simp only [isInner, Bool.or_eq_false_iff] at hc
    obtain ⟨-, hleft⟩ := (munches_mantissa t).eq_taken ha hc.1.1 ht
    rw [Reading.sees, ← hleft] at hmarker
    exact absurd hmarker (by simp [hc])
  · obtain ⟨d, y, rfl, hd⟩ := head_of_mem_exponent hx
    rw [List.append_assoc] at ht
    obtain ⟨-, hleft⟩ := (munches_mantissa t).eq_taken ha
      (not_of_class mem_of_isExponentMarker (by decide) hd) ht
    exact ⟨d :: y, hx, c :: rest, hleft⟩

/-- A float with the suffix of a long integer. -/
theorem malformed_suffix_iff : Malformed t .longSuffixOnFloat ↔
    startsHex t = false ∧ ((mantissaReading t).sees isExponentMarker = true →
      Starts exponent (mantissaReading t).left) ∧ (bareReading t).taken ∈ float ∧
        (bareReading t).sees isLongSuffix = true := by
  have hmunches := (munches_bare t).mono (fun _ => mem_mul_of_float) fun _ h => h
  have hsplit := hmunches.taken_append_left
  constructor
  · rintro ⟨w, rest, hw, -, ht, hsuffix⟩
    have hhex : startsHex t = false := by
      rw [← Bool.not_eq_true]
      intro hhex
      exact not_isPrefix_of_startsHex hhex hw.mem hw.isPrefix
    cases rest with
    | nil => exact absurd (starts_one_iff.mp hsuffix) Bool.false_ne_true
    | cons c rest =>
      have hc : isLongSuffix c = true := starts_one_iff.mp hsuffix
      have hinner : isInner c = false :=
        not_of_class mem_of_isSuffix (by decide) (Bool.or_eq_true_iff.mpr (.inl hc))
      have hexponent := starts_exponent_of_eq (mem_mul_of_float hw.mem) hinner ht
      obtain ⟨rfl, hleft⟩ := hmunches.eq_taken hw.mem hinner ht
      refine ⟨hhex, hexponent, hw.mem, ?_⟩
      rw [Reading.sees, ← hleft]
      exact hc
  · rintro ⟨hhex, -, hmem, hsuffix⟩
    refine ⟨_, _, hmunches.isLongest hmem, ?_, hsplit.symm, starts_one_iff.mpr hsuffix⟩
    intro v hv hprefix
    rcases hv with hv | hv
    · rw [starts_hexMarker_iff.mp (Starts.of_mul ⟨v, hv, hprefix⟩)] at hhex
      contradiction
    · have hle := (munches_bare t).le_taken (mem_mul_of_digits hv) hprefix
      refine Nat.lt_of_le_of_ne hle.length_le fun heq => ?_
      rw [← hle.eq_of_length heq] at hmem
      exact float_disjoint_digits hmem hv

/-! ## Numbers of the grammar -/

/-- A suffix that is there is taken. -/
theorem takeIf_isSuffix {r : Reading} {p : Char → Bool} (hp : ∀ c, p c = true → isSuffix c = true)
    (h : r.sees p = true) :
    r.takeIf isSuffix = r.skip 1 ∧ ∃ c, p c = true ∧ (r.skip 1).taken = r.taken ++ [c] := by
  obtain ⟨taken, left⟩ := r
  obtain ⟨c, left, rfl⟩ := List.exists_cons_of_ne_nil (Reading.left_ne_nil_of_sees h)
  exact ⟨if_pos (hp c h), c, h, rfl⟩

theorem isSuffix_of_isLongSuffix (c : Char) (h : isLongSuffix c = true) : isSuffix c = true := by
  simp [isSuffix, h]

theorem isSuffix_of_isImaginarySuffix (c : Char) (h : isImaginarySuffix c = true) :
    isSuffix c = true := by
  simp [isSuffix, h]

/-- Without a suffix, nothing more is taken. -/
theorem takeIf_isSuffix_eq {r : Reading} (hlong : ¬ r.sees isLongSuffix = true)
    (himaginary : ¬ r.sees isImaginarySuffix = true) : r.takeIf isSuffix = r := by
  refine if_neg ?_
  unfold Reading.sees at *
  cases hhead : r.left.head? with
  | none => simp
  | some c => simp_all [isSuffix]

/-- A number with the suffix of imaginary ones, if it is there. -/
theorem exists_result_imaginary {r : Reading} {k : Literal} (h : r.taken ∈ ofClass k)
    (hk : k = .int ∨ k = .float) (hlong : ¬ r.sees isLongSuffix = true) :
    ∃ k', (if r.sees isImaginarySuffix then .accept (.literal .complex) true (r.skip 1)
        else Scan.accept (.literal k) true r) =
          .accept (.literal k') true (r.takeIf isSuffix) ∧
      (r.takeIf isSuffix).taken ∈ ofClass k' := by
  by_cases himaginary : r.sees isImaginarySuffix = true
  · obtain ⟨heq, c, hc, htaken⟩ := takeIf_isSuffix isSuffix_of_isImaginarySuffix himaginary
    refine ⟨.complex, by rw [if_pos himaginary, heq], ?_⟩
    rw [heq, htaken]
    refine Language.append_mem_mul ?_ ⟨c, hc, rfl⟩
    rcases hk with rfl | rfl
    · exact .inl h
    · exact .inr h
  · rw [takeIf_isSuffix_eq hlong himaginary, if_neg himaginary]
    exact ⟨k, rfl, h⟩

/-- **An integer is taken with its suffix**, which decides on its class. -/
theorem exists_integer_eq {r : Reading} (h : r.taken ∈ int) :
    ∃ k, integer r = .accept (.literal k) true (r.takeIf isSuffix) ∧
      (r.takeIf isSuffix).taken ∈ ofClass k := by
  unfold integer
  split
  · rename_i hlong
    obtain ⟨heq, c, hc, htaken⟩ := takeIf_isSuffix isSuffix_of_isLongSuffix hlong
    refine ⟨.longInt, by rw [heq], ?_⟩
    rw [heq, htaken]
    exact Language.append_mem_mul h ⟨c, hc, rfl⟩
  · rename_i hlong
    exact exists_result_imaginary (k := .int) h (.inl rfl) hlong

/-- A float is taken with its suffix, if that is not the one of long integers. -/
theorem exists_float_eq {r : Reading} (h : r.taken ∈ float)
    (hlong : ¬ r.sees isLongSuffix = true) :
    ∃ k, Rule.float r = .accept (.literal k) true (r.takeIf isSuffix) ∧
      (r.takeIf isSuffix).taken ∈ ofClass k := by
  rw [Rule.float, if_neg hlong]
  exact exists_result_imaginary (k := .float) h (.inr rfl) hlong

theorem mem_numeral_of_ofClass {k : Literal} {w : Text} (h : w ∈ ofClass k) : w ∈ numeral := by
  cases k with
  | int => exact .inl (.inl (.inl h))
  | longInt => exact .inl (.inl (.inr h))
  | float => exact .inl (.inr h)
  | complex => exact .inr h
  | string => exact h.elim

/-- A decimal number is the longest. -/
theorem isLongest_decimal (hhex : startsHex t = false)
    (hmem : ((bareReading t).takeIf isSuffix).taken ∈ numeral) :
    IsLongest numeral t ((bareReading t).takeIf isSuffix).taken := by
  have hmunches := munches_suffix (munches_bare t) (by decide)
  refine ⟨hmem, ⟨_, hmunches.taken_append_left⟩, ?_⟩
  intro v hv hprefix
  rcases mem_add_of_numeral hv with hv | hv
  · have hstarts : Starts hexMarker t := Starts.of_mul (Starts.of_mul ⟨v, hv, hprefix⟩)
    rw [starts_hexMarker_iff.mp hstarts] at hhex
    contradiction
  · exact (hmunches.le_taken hv hprefix).length_le

/-- A hexadecimal integer is the longest number. -/
theorem isLongest_hex (hhex : startsHex t = true)
    (hmem : ((hexReading t).takeIf isSuffix).taken ∈ numeral) :
    IsLongest numeral t ((hexReading t).takeIf isSuffix).taken := by
  have hmunches := munches_suffix (munches_hex hhex) (by decide)
  refine ⟨hmem, ⟨_, hmunches.taken_append_left⟩, ?_⟩
  intro v hv hprefix
  rcases mem_add_of_numeral hv with hv | hv
  · exact (hmunches.le_taken hv hprefix).length_le
  · -- as a decimal number, the text has its zero only
    have hzero := (munches_suffix (munches_bare t) (by decide)).le_taken hv hprefix
    obtain ⟨c, rest, hc, rfl⟩ := startsHex_iff_exists.mp hhex
    have hbare : (bareReading ('0' :: c :: rest)).takeIf isSuffix = ⟨['0'], c :: rest⟩ := by
      simp only [isHexMarker, Bool.or_eq_true, decide_eq_true_eq] at hc
      rcases hc with rfl | rfl
      · rfl
      · rfl
    have hfront : ['0'] <+: (hexReading ('0' :: c :: rest)).taken :=
      ⟨c :: rest.takeWhile isHexDigit, rfl⟩
    rw [hbare] at hzero
    exact (hzero.trans (hfront.trans (Munches.takeIf _ isSuffix).taken_isPrefix)).length_le

/-- **The rule for numbers follows the grammar**: it rejects what is malformed, and of anything else
it takes the longest number, as one of its class. -/
theorem result_number (h : StartsNumeral t) :
    (∀ issue, (number t).result = .error (.malformedNumber issue) ↔ Malformed t issue) ∧
      ((∀ issue, ¬ Malformed t issue) →
        ∃ k, (number t).result = .ok ⟨.literal k, true, (number t).reading.taken⟩ ∧
          IsLongest numeral t (number t).reading.taken ∧
          (number t).reading.taken ∈ ofClass k) := by
  have hhex := malformed_hex_iff (t := t)
  have hexponent := malformed_exponent_iff h
  have hsuffix := malformed_suffix_iff (t := t)
  generalize hscan : number t = s
  have hchoice := choice_number h
  rw [hscan] at hchoice
  cases hchoice with
  | noHexDigits hstarts hsees =>
    refine ⟨?_, fun hnone => ?_⟩
    · intro issue
      cases issue <;> simp [hhex, hexponent, hsuffix, hstarts, hsees, Scan.reject]
    · exact absurd (hhex.mpr ⟨hstarts, hsees⟩) (hnone _)
  | hex hstarts hsees hmem =>
    obtain ⟨k, heq, hclass⟩ := exists_integer_eq hmem
    rw [heq]
    have hlongest := isLongest_hex hstarts (mem_numeral_of_ofClass hclass)
    refine ⟨?_, fun _ => ⟨k, rfl, hlongest, hclass⟩⟩
    intro issue
    cases issue <;> simp [hhex, hexponent, hsuffix, hstarts, hsees, Scan.accept]
  | noExponentDigits hstarts hmarker hno =>
    refine ⟨?_, fun hnone => ?_⟩
    · intro issue
      cases issue <;> simp [hhex, hexponent, hsuffix, hstarts, hmarker, hno, Scan.reject]
    · exact absurd (hexponent.mpr ⟨hstarts, hmarker, hno⟩) (hnone _)
  | float hstarts hmem hstart =>
    by_cases hlong : (bareReading t).sees isLongSuffix = true
    · rw [Rule.float, if_pos hlong]
      refine ⟨?_, fun hnone => ?_⟩
      · intro issue
        cases issue <;> simp_all [Scan.reject]
      · exact absurd (hsuffix.mpr ⟨hstarts, hstart, hmem, hlong⟩) (hnone _)
    · obtain ⟨k, heq, hclass⟩ := exists_float_eq hmem hlong
      rw [heq]
      have hlongest := isLongest_decimal hstarts (mem_numeral_of_ofClass hclass)
      refine ⟨?_, fun _ => ⟨k, rfl, hlongest, hclass⟩⟩
      intro issue
      cases issue <;> simp_all [Scan.accept]
  | decimal hstarts hmem hmarker =>
    obtain ⟨k, heq, hclass⟩ := exists_integer_eq (.inr hmem)
    rw [heq]
    have hlongest := isLongest_decimal hstarts (mem_numeral_of_ofClass hclass)
    refine ⟨?_, fun _ => ⟨k, rfl, hlongest, hclass⟩⟩
    intro issue
    have hfloat : (bareReading t).taken ∉ float := fun hpos => float_disjoint_digits hpos hmem
    cases issue <;> simp [hhex, hexponent, hsuffix, hstarts, hmarker, hfloat, Scan.accept]

/-- A text that starts as a number is not empty. -/
theorem StartsNumeral.ne_nil {t : Text} (h : StartsNumeral t) : t ≠ [] := by
  rintro rfl
  obtain ⟨w, hw, hprefix⟩ := h
  obtain rfl := List.prefix_nil.mp hprefix
  rcases hw with ⟨c, -, hnil⟩ | hw
  · contradiction
  · obtain ⟨_, rfl, x, -, hnil⟩ := Language.mem_mul.mp hw
    contradiction

/-- A text that starts as a number is read by the rule for numbers. -/
theorem scan_of_startsNumeral {c : Char} {t : Text} (h : StartsNumeral (c :: t))
    (s : Surroundings) : scan s c t = number (c :: t) := by
  refine scan_of_number ?_
  obtain ⟨w, hw, hprefix⟩ := h
  rcases hw with ⟨d, hd, rfl⟩ | hw
  · obtain ⟨rfl, -⟩ := List.cons_prefix_cons.mp hprefix
    rw [hd, Bool.true_or]
  · obtain ⟨_, rfl, _, ⟨d, hd, rfl⟩, rfl⟩ := Language.mem_mul.mp hw
    exact Bool.or_eq_true_iff.mpr (.inr ((startsFraction_iff _).mpr ⟨d, hd, hprefix⟩))

end Numeral

/-! ## Sessions -/

namespace Lexer

open Numeral

/-- What a lexer answers in front of a number is what the grammar says. -/
structure ReadsNumeral (l : Lexer) (u : Turn) : Prop where
  /-- A number is refused exactly if it is malformed, for what is wrong with it. -/
  malformed : ∀ issue, (∃ e, u.reply = .error e ∧ e.cause = .malformedNumber issue) ↔
    Malformed l.rest issue
  /-- Otherwise the token is the longest number, and the one class that it is in is that of the
  token. -/
  token : (∀ issue, ¬ Malformed l.rest issue) → ∃ t k, u.reply = .ok t ∧
    l.rest = t.text ++ u.lexer.rest ∧ IsLongest numeral l.rest t.text ∧ t.kind = .literal k ∧
    ∀ k', t.text ∈ ofClass k' ↔ k' = k

theorem readsNumeral_of_next {l : Lexer} {u : Turn} {c : Char} {t : Text}
    (hrest : l.rest = c :: t) (h : StartsNumeral (c :: t)) (hnext : l.next = .ok u) :
    ReadsNumeral l u := by
  obtain ⟨hmalformed, htoken⟩ := result_number h
  have hscan := scan_of_startsNumeral h l.surroundings
  cases hresult : (number (c :: t)).result with
  | ok lexeme =>
    obtain ⟨token, hreply, hkind, -, htext, hleft⟩ :=
      exists_token_of_scan hrest hnext (by rw [hscan, hresult])
    refine ⟨?_, ?_⟩
    · intro issue
      rw [hrest, ← hmalformed, hresult, hreply]
      simp
    · intro hnone
      rw [hrest] at hnone ⊢
      obtain ⟨k, hlexeme, hlongest, hclass⟩ := htoken hnone
      obtain rfl := Except.ok.inj (hresult.symm.trans hlexeme)
      replace htext : token.text = (number (c :: t)).reading.taken := htext
      rw [← htext] at hlongest hclass
      refine ⟨token, k, hreply, ?_, hlongest, hkind, ?_⟩
      · rw [hleft, hscan, htext]
        exact (whole_number (c :: t)).symm
      · intro k'
        constructor
        · intro hk'
          exact (classify_of_mem hk').symm.trans (classify_of_mem hclass)
        · rintro rfl
          exact hclass
  | error cause =>
    obtain ⟨e, -, hreply, rfl, -⟩ := exists_error_of_scan hrest hnext (by rw [hscan, hresult])
    refine ⟨?_, ?_⟩
    · intro issue
      rw [hrest, ← hmalformed, hresult, hreply]
      simp
    · intro hnone
      rw [hrest] at hnone
      obtain ⟨k, hlexeme, -⟩ := htoken hnone
      rw [hresult] at hlexeme
      contradiction

/-- **Numbers are those of the grammar, and the longest of them**: where the text ahead of a lexer
of a session on a source of less than `2 ^ 29` bytes starts with a digit, or with a point and a
digit, the answer of the lexer is the one that the grammar says. -/
theorem readsNumeral_of_reachable {source : Text} {file : FileId} {l : Lexer}
    (hsize : Text.byteSize source < 2 ^ 29) (h : Reachable source file l)
    (hstarts : StartsNumeral l.rest) : ∃ u, l.next = .ok u ∧ ReadsNumeral l u := by
  obtain ⟨before, hstands⟩ := h.stands
  obtain ⟨u, hnext⟩ := hstands.exists_next hsize
  obtain ⟨c, t, hrest⟩ := List.exists_cons_of_ne_nil hstarts.ne_nil
  rw [hrest] at hstarts
  exact ⟨u, hnext, readsNumeral_of_next hrest hstarts hnext⟩

/-- The digits of a hexadecimal integer that look like an exponent, and behind them an exponent
without digits. -/
theorem readsNumeral_of_reachable_hex :
    Text.byteSize ['0', 'x', '1', 'e', 'L', '.', '5', 'e', '-'] < 2 ^ 29 ∧
      ∃ l m u v, Reachable ['0', 'x', '1', 'e', 'L', '.', '5', 'e', '-'] ⟨3⟩ l ∧
        Reachable ['0', 'x', '1', 'e', 'L', '.', '5', 'e', '-'] ⟨3⟩ m ∧
        l.next = .ok u ∧ u.reply = .ok ⟨.literal .longInt, ['0', 'x', '1', 'e', 'L'],
          ⟨0, 5, 1, 0, ⟨3⟩⟩, true⟩ ∧ ReadsNumeral l u ∧
        m.next = .ok v ∧ v.reply = .error ⟨.malformedNumber .missingExponentDigits,
          ⟨5, 9, 1, 5, ⟨3⟩⟩⟩ ∧ ReadsNumeral m v := by
  have hsize : Text.byteSize ['0', 'x', '1', 'e', 'L', '.', '5', 'e', '-'] < 2 ^ 29 := by decide
  have hcall : (ofSource ['0', 'x', '1', 'e', 'L', '.', '5', 'e', '-'] ⟨3⟩).call .next =
      .ok (_, ⟨⟨3⟩, ['.', '5', 'e', '-'], ⟨5, 1, 5⟩, ⟨0, false, false, 0⟩, 1, false, false⟩) := rfl
  have hstart : Reachable ['0', 'x', '1', 'e', 'L', '.', '5', 'e', '-'] ⟨3⟩ _ := .start
  have hnext := hstart.call hcall
  obtain ⟨u, hu, hreads⟩ := readsNumeral_of_reachable hsize hstart
    ⟨['0'], .inl ⟨'0', rfl, rfl⟩, _, rfl⟩
  obtain ⟨v, hv, hreads'⟩ := readsNumeral_of_reachable hsize hnext
    ⟨['.', '5'], .inr (Language.mem_mul.mpr ⟨['.'], rfl, ['5'], ⟨'5', rfl, rfl⟩, rfl⟩), _, rfl⟩
  refine ⟨hsize, _, _, u, v, hstart, hnext, hu, ?_, hreads, hv, ?_, hreads'⟩
  · exact congrArg Turn.reply (Except.ok.inj hu).symm
  · exact congrArg Turn.reply (Except.ok.inj hv).symm

end Lexer

end Lexis
