import Lexis.Proofs.CodeExtent
import Lexis.Proofs.Munch

/-!
# The grammar of numbers

Numbers are the words of a small grammar: decimal and hexadecimal integers, long integers, floats
and imaginary numbers. What is wrong with a text that starts as a number is said in terms of the
grammar as well, by its longest words. Each number is in one class only, which its last character
and the characters in it show.

* `Numeral.numeral`, `Numeral.ofClass`: the numbers, and those of a class.
* `Numeral.Malformed`: what is wrong with a number.
* `Numeral.munches_mantissa`, `Numeral.munches_bare`, `Numeral.munches_suffix`,
  `Numeral.munches_hex`: the parts of a number are read as far as the grammar allows.
* `Numeral.mem_add_of_numeral`, `Numeral.mem_mul_of_float`: the parts of which numbers consist.
* `Numeral.classify_of_mem`: a number shows its class, so no number is in two classes.
-/

namespace Lexis

open Grammar Rule

/-! ## The grammar -/

namespace Numeral

/-- The marker of a hexadecimal integer, behind its zero. -/
def isHexMarker (c : Char) : Bool := c = 'x' || c = 'X'

/-- A point. -/
def point : Language Char := {['.']}

/-- Decimal digits. -/
def digits : Language Char := many1 Char.isDigit

/-- What a hexadecimal integer starts with. -/
def hexMarker : Language Char := {['0']} * one isHexMarker

/-- Integers. -/
def int : Language Char := hexMarker * many1 isHexDigit + digits

/-- Long integers. -/
def longInt : Language Char := int * one isLongSuffix

/-- Exponents. -/
def exponent : Language Char := one isExponentMarker * (1 + one isSign) * digits

/-- Floats: with a point and perhaps an exponent, or with an exponent only. -/
def float : Language Char :=
  point * digits * (1 + exponent) + digits * point * many Char.isDigit * (1 + exponent) +
    digits * exponent

/-- Imaginary numbers. -/
def complex : Language Char := (int + float) * one isImaginarySuffix

/-- Decimal numbers up to their exponent. -/
def mantissa : Language Char :=
  digits + digits * point * many Char.isDigit + point * digits

/-- The numbers of a class. -/
def ofClass : Literal → Language Char
  | .int => int
  | .longInt => longInt
  | .float => float
  | .complex => complex
  | .string => 0

/-- Numbers of any class. -/
def numeral : Language Char := int + longInt + float + complex

/-- What is wrong with a number at the start of a text. -/
def Malformed (t : Text) : NumberIssue → Prop
  | .missingHexDigits => Starts hexMarker t ∧ ¬ Starts (hexMarker * one isHexDigit) t
  | .missingExponentDigits => ¬ Starts hexMarker t ∧ ∃ w rest, IsLongest mantissa t w ∧
      t = w ++ rest ∧ Starts (one isExponentMarker) rest ∧ ¬ Starts exponent rest
  | .longSuffixOnFloat => ∃ w rest, IsLongest float t w ∧
      (∀ v ∈ int, v <+: t → v.length < w.length) ∧ t = w ++ rest ∧
      Starts (one isLongSuffix) rest

/-! ## Classes of characters -/

/-- The suffix of a number. -/
def isSuffix (c : Char) : Bool := isLongSuffix c || isImaginarySuffix c

/-- A character of a decimal number without its suffix. -/
def isInner (c : Char) : Bool := isNumeric c || isExponentMarker c || isSign c

/-- The last character of an integer or a float. -/
def isEnd (c : Char) : Bool := isHexDigit c || c = '.'

theorem isInner_of_isNumeric {c : Char} (h : isNumeric c = true) : isInner c = true := by
  simp [isInner, h]

theorem isNumeric_of_isDigit {c : Char} (h : c.isDigit = true) : isNumeric c = true := by
  simp [isNumeric, h]

/-- A class that has none of a few characters has none of the class of these. -/
theorem not_of_class {p q : Char → Bool} {cs : List Char} (hq : ∀ c, q c = true → c ∈ cs)
    (hp : cs.all (!p ·) = true) {c : Char} (hc : q c = true) : p c = false := by
  have := List.all_eq_true.mp hp c (hq c hc)
  simpa using this

theorem mem_of_isExponentMarker (c : Char) (h : isExponentMarker c = true) : c ∈ ['e', 'E'] := by
  simpa [isExponentMarker] using h

theorem isSign_of_isDigit {c : Char} (h : c.isDigit = true) : isSign c = false := by
  have hplus : c ≠ '+' := ne_of_class h (by decide)
  have hminus : c ≠ '-' := ne_of_class h (by decide)
  simp [isSign, hplus, hminus]

theorem mem_of_isSuffix (c : Char) (h : isSuffix c = true) : c ∈ ['l', 'L', 'j', 'J'] := by
  simpa [isSuffix, isLongSuffix, isImaginarySuffix, or_assoc] using h

theorem mem_of_isHexMarker (c : Char) (h : isHexMarker c = true) : c ∈ ['x', 'X'] := by
  simpa [isHexMarker] using h

end Numeral

open Numeral

/-! ## The readings of a number -/

namespace Rule

/-- A number up to its exponent. -/
def mantissaReading (t : Text) : Reading := fraction ((Reading.start t).takeWhile Char.isDigit)

/-- A number up to its suffix. -/
def bareReading (t : Text) : Reading :=
  if (mantissaReading t).sees isExponentMarker then
    (exponentMarker (mantissaReading t)).takeWhile Char.isDigit
  else mantissaReading t

/-- A hexadecimal integer up to its suffix. -/
def hexReading (t : Text) : Reading := ((Reading.start t).skip 2).takeWhile isHexDigit

end Rule

namespace Numeral

/-! ## Greedy reading -/

/-- Up to its exponent, a number has digits and then perhaps a point with digits. -/
theorem mem_mul_of_mantissa {w : Text} (h : w ∈ mantissa) :
    w ∈ many Char.isDigit * (1 + one (· = '.') * many Char.isDigit) := by
  rcases h with (hw | hw) | hw
  · exact mem_mul_optional hw.2
  · obtain ⟨a, ha, x, hx, rfl⟩ := Language.mem_mul.mp hw
    obtain ⟨d, hd, _, rfl, rfl⟩ := Language.mem_mul.mp ha
    refine Language.mem_mul.mpr ⟨d, hd.2, ['.'] ++ x, .inr ?_, by simp⟩
    exact Language.append_mem_mul ⟨'.', rfl, rfl⟩ hx
  · obtain ⟨_, rfl, x, hx, rfl⟩ := Language.mem_mul.mp hw
    refine Language.mem_mul.mpr ⟨[], by simp, ['.'] ++ x, .inr ?_, rfl⟩
    exact Language.append_mem_mul ⟨'.', rfl, rfl⟩ hx.2

theorem munches_mantissa (t : Text) :
    Munches mantissa isNumeric (.start t) (mantissaReading t) := by
  have hwhole := Munches.takeWhile (.start t) Char.isDigit
  have hfraction : Munches (1 + one (· = '.') * many Char.isDigit) isNumeric
      ((Reading.start t).takeWhile Char.isDigit) (mantissaReading t) := by
    unfold mantissaReading fraction
    split
    · rename_i hsees
      have hpoint : Munches (one (· = '.')) (fun _ => false) _ _ :=
        .skip_one _ (Reading.left_ne_nil_of_sees hsees)
      have hdigits := hpoint.mul (.takeWhile _ Char.isDigit) (by simp) (by simp)
      refine (hdigits.mono (fun _ hv => hv) fun _ => isNumeric_of_isDigit).optional ?_
      intro c hc
      have := Reading.head_of_sees hsees c hc
      simp_all [isNumeric]
    · rename_i hsees
      refine .refl _ ?_
      rintro v (rfl | hv) hprefix
      · rfl
      · obtain ⟨_, ⟨c, hc, rfl⟩, x, -, rfl⟩ := Language.mem_mul.mp hv
        exact absurd (Reading.sees_of_isPrefix hc hprefix) hsees
  refine (hwhole.mul hfraction (fun _ => isNumeric_of_isDigit) ?_).mono
    (fun _ => mem_mul_of_mantissa) fun _ h => h
  rintro x (rfl | hx) c hc
  · contradiction
  · obtain ⟨_, ⟨d, hd, rfl⟩, y, -, rfl⟩ := Language.mem_mul.mp hx
    obtain rfl : d = c := Option.some.inj hc
    rw [of_decide_eq_true hd]
    decide

/-- The words of an optional exponent start with its marker. -/
theorem head_of_mem_exponent {x : Text} (hx : x ∈ exponent) :
    ∃ c y, x = c :: y ∧ isExponentMarker c = true := by
  obtain ⟨a, ha, d, -, rfl⟩ := Language.mem_mul.mp hx
  obtain ⟨_, ⟨c, hc, rfl⟩, s, -, rfl⟩ := Language.mem_mul.mp ha
  exact ⟨c, s ++ d, rfl, hc⟩

theorem munches_exponent (r : Reading) :
    Munches (1 + exponent) isInner r
      (if r.sees isExponentMarker then (exponentMarker r).takeWhile Char.isDigit else r) := by
  split
  · rename_i hsees
    have hmarker : Munches (one isExponentMarker) (fun _ => false) r (r.skip 1) :=
      .skip_one _ (Reading.left_ne_nil_of_sees hsees)
    have hsign := hmarker.mul (.takeIf (r.skip 1) isSign) (by simp) (by simp)
    have hdigits := (Munches.takeWhile (exponentMarker r) Char.isDigit).mono (K := digits)
      (fun _ hv => hv.2) fun _ h => isInner_of_isNumeric (isNumeric_of_isDigit h)
    refine (hsign.mul hdigits ?_ ?_).optional ?_
    · intro c hc
      simp [isInner, hc]
    · rintro x ⟨-, hx⟩ c hc
      have hdigit := hx c (List.mem_of_mem_head? hc)
      exact isSign_of_isDigit hdigit
    · intro c hc
      have := Reading.head_of_sees hsees c hc
      simp [isInner, this]
  · rename_i hsees
    refine .refl _ ?_
    rintro v (rfl | hv) hprefix
    · rfl
    · obtain ⟨c, y, rfl, hc⟩ := head_of_mem_exponent hv
      exact absurd (Reading.sees_of_isPrefix hc hprefix) hsees

theorem munches_bare (t : Text) :
    Munches (mantissa * (1 + exponent)) isInner (.start t) (bareReading t) := by
  refine (munches_mantissa t).mul (munches_exponent _) (fun _ => isInner_of_isNumeric) ?_
  rintro x (rfl | hx) c hc
  · contradiction
  · obtain ⟨d, y, rfl, hd⟩ := head_of_mem_exponent hx
    obtain rfl : d = c := Option.some.inj hc
    exact not_of_class mem_of_isExponentMarker (by decide) hd

/-- A suffix is no part of what is in front of it. -/
theorem munches_suffix {L : Language Char} {p : Char → Bool} {r s : Reading}
    (h : Munches L p r s) (hp : ['l', 'L', 'j', 'J'].all (!p ·) = true) :
    Munches (L * (1 + one isSuffix)) (fun c => p c || isSuffix c) r (s.takeIf isSuffix) := by
  refine h.mul ((Munches.takeIf s isSuffix).mono (fun _ hv => hv) ?_) ?_ ?_
  · intro c hc
    simp [hc]
  · intro c hc
    simp [hc]
  · rintro x (rfl | ⟨d, hd, rfl⟩) c hc
    · contradiction
    · obtain rfl : d = c := Option.some.inj hc
      exact not_of_class mem_of_isSuffix hp hd

/-- What starts as a hexadecimal integer is read as one, up to its suffix. -/
theorem munches_hex {t : Text} (h : startsHex t = true) :
    Munches (hexMarker * many1 isHexDigit) isHexDigit (.start t) (hexReading t) := by
  have hlength : 2 ≤ t.length := by
    rcases (startsHex_iff t).mp h with hprefix | hprefix <;> exact hprefix.length_le
  have hskip : (Reading.start t).skip 2 = ((Reading.start t).skip 1).skip 1 := by
    simp [Reading.skip, List.take_add (i := 1) (j := 1)]
  have hzero : Munches (one (· = '0')) (fun _ => false) (.start t) ((Reading.start t).skip 1) :=
    .skip_one _ (List.ne_nil_of_length_pos (by simp only [Reading.start]; omega))
  have hmarker : Munches (one isHexMarker) (fun _ => false) ((Reading.start t).skip 1)
      ((Reading.start t).skip 2) := by
    rw [hskip]
    exact .skip_one _ (List.ne_nil_of_length_pos (by simp [Reading.start, Reading.skip]; omega))
  have hdigits := Munches.takeWhile ((Reading.start t).skip 2) isHexDigit
  refine ((hzero.mul hmarker (by simp) (by simp)).mul hdigits (by simp) (by simp)).mono ?_
    fun _ h => h
  intro v hv
  obtain ⟨m, hm, x, hx, rfl⟩ := Language.mem_mul.mp hv
  obtain ⟨_, rfl, y, hy, rfl⟩ := Language.mem_mul.mp hm
  exact Language.append_mem_mul (Language.append_mem_mul ⟨'0', rfl, rfl⟩ hy) hx.2

/-! ## Words of the grammar -/

theorem float_eq :
    float = (point * digits + digits * point * many Char.isDigit) * (1 + exponent) +
      digits * exponent := by
  rw [float, add_mul]

theorem mem_mantissa_of_digits {w : Text} (h : w ∈ digits) : w ∈ mantissa := .inl (.inl h)

/-- A float is a decimal number. -/
theorem mem_mul_of_float {w : Text} (h : w ∈ float) : w ∈ mantissa * (1 + exponent) := by
  rw [float_eq] at h
  rcases h with hw | hw
  · obtain ⟨a, ha, x, hx, rfl⟩ := Language.mem_mul.mp hw
    refine Language.append_mem_mul ?_ hx
    rcases ha with ha | ha
    · exact .inr ha
    · exact .inl (.inr ha)
  · obtain ⟨a, ha, x, hx, rfl⟩ := Language.mem_mul.mp hw
    exact Language.append_mem_mul (mem_mantissa_of_digits ha) (.inr hx)

/-- Digits are a decimal number. -/
theorem mem_mul_of_digits {w : Text} (h : w ∈ digits) : w ∈ mantissa * (1 + exponent) :=
  mem_mul_optional (mem_mantissa_of_digits h)

/-- A number is a hexadecimal integer or a decimal number, perhaps with a suffix. -/
theorem mem_add_of_numeral {w : Text} (h : w ∈ numeral) :
    w ∈ hexMarker * many1 isHexDigit * (1 + one isSuffix) +
      mantissa * (1 + exponent) * (1 + one isSuffix) := by
  have hbare : ∀ a ∈ int + float, a ∈ hexMarker * many1 isHexDigit + mantissa * (1 + exponent) := by
    rintro a ((ha | ha) | ha)
    · exact .inl ha
    · exact .inr (mem_mul_of_digits ha)
    · exact .inr (mem_mul_of_float ha)
  have hsuffix : ∀ p : Char → Bool, (∀ c, p c = true → isSuffix c = true) →
      ∀ v ∈ (int + float) * one p,
        v ∈ (hexMarker * many1 isHexDigit + mantissa * (1 + exponent)) * (1 + one isSuffix) := by
    intro p hp v hv
    obtain ⟨a, ha, _, ⟨c, hc, rfl⟩, rfl⟩ := Language.mem_mul.mp hv
    exact Language.append_mem_mul (hbare a ha) (.inr ⟨c, hp c hc, rfl⟩)
  rw [← add_mul]
  rcases h with ((hw | hw) | hw) | hw
  · exact mem_mul_optional (hbare w (.inl hw))
  · refine hsuffix isLongSuffix (fun c hc => by simp [isSuffix, hc]) w ?_
    rw [add_mul]
    exact .inl hw
  · exact mem_mul_optional (hbare w (.inr hw))
  · exact hsuffix isImaginarySuffix (fun c hc => by simp [isSuffix, hc]) w hw

theorem isEnd_of_isHexDigit {c : Char} (h : isHexDigit c = true) : isEnd c = true := by
  simp [isEnd, h]

theorem isHexDigit_of_isDigit {c : Char} (h : c.isDigit = true) : isHexDigit c = true := by
  simp [isHexDigit, h]

theorem endsWith_digits : EndsWith isEnd digits :=
  .many1 fun _ h => isEnd_of_isHexDigit (isHexDigit_of_isDigit h)

theorem endsWith_int : EndsWith isEnd int :=
  (EndsWith.mul _ (.many1 fun _ => isEnd_of_isHexDigit)).add endsWith_digits

theorem endsWith_exponent : EndsWith isEnd exponent := endsWith_digits.mul _

theorem endsWith_float : EndsWith isEnd float := by
  have hfraction : EndsWith isEnd (digits * point * many Char.isDigit) := by
    intro w hw
    obtain ⟨a, ha, x, hx, rfl⟩ := Language.mem_mul.mp hw
    by_cases hnil : x = []
    · obtain ⟨d, -, _, rfl, rfl⟩ := Language.mem_mul.mp ha
      exact ⟨d, '.', by simp [hnil], by decide⟩
    · exact endsWith_digits.mul _ _ (Language.append_mem_mul ha ⟨hnil, hx⟩)
  exact ((endsWith_digits.mul _).mul_optional endsWith_exponent |>.add
    (hfraction.mul_optional endsWith_exponent)).add (endsWith_exponent.mul _)

/-- A float has a character that is no digit. -/
theorem exists_not_isDigit_of_float {w : Text} (h : w ∈ float) : ∃ c ∈ w, c.isDigit = false := by
  rw [float_eq] at h
  rcases h with hw | hw
  · obtain ⟨a, ha, x, -, rfl⟩ := Language.mem_mul.mp hw
    refine ⟨'.', List.mem_append_left x ?_, by decide⟩
    rcases ha with ha | ha
    · obtain ⟨_, rfl, d, -, rfl⟩ := Language.mem_mul.mp ha
      exact List.mem_cons_self
    · obtain ⟨b, hb, d, -, rfl⟩ := Language.mem_mul.mp ha
      obtain ⟨e, -, _, rfl, rfl⟩ := Language.mem_mul.mp hb
      simp
  · obtain ⟨a, -, x, hx, rfl⟩ := Language.mem_mul.mp hw
    obtain ⟨c, y, rfl, hc⟩ := head_of_mem_exponent hx
    exact ⟨c, by simp, not_of_class mem_of_isExponentMarker (by decide) hc⟩

theorem float_disjoint_digits {w : Text} (h : w ∈ float) (hdigits : w ∈ digits) : False := by
  obtain ⟨c, hc, hdigit⟩ := exists_not_isDigit_of_float h
  rw [hdigits.2 c hc] at hdigit
  contradiction

theorem within_digits : Within isInner digits :=
  .many1 fun _ h => isInner_of_isNumeric (isNumeric_of_isDigit h)

theorem within_point : Within isInner point := by
  rintro w rfl c hc
  obtain rfl := List.mem_singleton.mp hc
  decide

theorem within_exponent : Within isInner exponent := by
  refine (Within.mul (.one ?_) (.optional (.one ?_))).mul within_digits
  · intro c hc
    simp [isInner, hc]
  · intro c hc
    simp [isInner, hc]

/-- A float has the characters of decimal numbers only. -/
theorem within_float : Within isInner float := by
  have hrest : Within isInner (many Char.isDigit) :=
    .many fun _ h => isInner_of_isNumeric (isNumeric_of_isDigit h)
  have hpointed := (within_point.mul within_digits).mul within_exponent.optional
  have hwhole := ((within_digits.mul within_point).mul hrest).mul within_exponent.optional
  exact (hpointed.add hwhole).add (within_digits.mul within_exponent)

/-- The class that a number shows: by its suffix, and without one by its characters. -/
def classify (w : Text) : Literal :=
  if w.getLast?.any isLongSuffix then .longInt
  else if w.getLast?.any isImaginarySuffix then .complex
  else if w.all isInner && !w.all Char.isDigit then .float
  else .int

/-- A number without a suffix is classified by its characters. -/
theorem classify_of_endsWith {L : Language Char} (hL : EndsWith isEnd L) {w : Text} (hw : w ∈ L) :
    classify w = if w.all isInner && !w.all Char.isDigit then .float else .int := by
  obtain ⟨v, c, rfl, hc⟩ := hL w hw
  have hsuffix : isSuffix c = false := by
    by_contra hpos
    rw [not_of_class (p := isEnd) mem_of_isSuffix (by decide) (Bool.not_eq_false _ ▸ hpos)] at hc
    contradiction
  obtain ⟨hlong, himaginary⟩ := Bool.or_eq_false_iff.mp hsuffix
  have hlast : (v ++ [c]).getLast? = some c := List.getLast?_concat
  rw [classify, hlast, Option.any_some, Option.any_some, hlong, himaginary]
  rfl

/-- **A number shows its class.** -/
theorem classify_of_mem {w : Text} {k : Literal} (h : w ∈ ofClass k) : classify w = k := by
  cases k with
  | int =>
    rw [classify_of_endsWith endsWith_int h]
    refine if_neg ?_
    rcases h with hhex | hdigits
    · obtain ⟨a, ha, x, -, rfl⟩ := Language.mem_mul.mp hhex
      obtain ⟨_, rfl, _, ⟨c, hc, rfl⟩, rfl⟩ := Language.mem_mul.mp ha
      simp [not_of_class (p := isInner) mem_of_isHexMarker (by decide) hc]
    · simp [List.all_eq_true.mpr hdigits.2]
  | longInt =>
    obtain ⟨a, -, _, ⟨c, hc, rfl⟩, rfl⟩ := Language.mem_mul.mp h
    simp [classify, hc]
  | float =>
    obtain ⟨c, hmem, hdigit⟩ := exists_not_isDigit_of_float h
    have hall : w.all Char.isDigit = false := List.all_eq_false.mpr ⟨c, hmem, by simp [hdigit]⟩
    rw [classify_of_endsWith endsWith_float h, List.all_eq_true.mpr (within_float w h), hall]
    rfl
  | complex =>
    obtain ⟨a, -, _, ⟨c, hc, rfl⟩, rfl⟩ := Language.mem_mul.mp h
    have hlong : isLongSuffix c = false := by
      simp only [isImaginarySuffix, Bool.or_eq_true, decide_eq_true_eq] at hc
      rcases hc with rfl | rfl <;> decide
    simp [classify, hc, hlong]
  | string => exact h.elim

end Numeral

end Lexis
