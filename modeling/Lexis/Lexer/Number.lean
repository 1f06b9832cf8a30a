import Lexis.Lexer.Reading

/-!
# Numbers

Integers in decimal and hexadecimal, long integers with the suffix `L`, floats with a point or an
exponent, and imaginary numbers with the suffix `j`. A number is delimited and classified, not
converted, and letters behind it that are no part of it are left alone.

* `Rule.number`: the rule for a text that starts with a digit, or with a point and a digit.
* `Rule.whole_number`, `Rule.length_left_number_le`: it loses nothing and takes at least one
  character.
-/

namespace Lexis.Rule

/-- The suffix of a long integer. -/
def isLongSuffix (c : Char) : Bool := c = 'l' || c = 'L'

/-- The suffix of an imaginary number. -/
def isImaginarySuffix (c : Char) : Bool := c = 'j' || c = 'J'

/-- The marker of an exponent. -/
def isExponentMarker (c : Char) : Bool := c = 'e' || c = 'E'

/-- The sign of an exponent. -/
def isSign (c : Char) : Bool := c = '+' || c = '-'

/-- Whether a text starts with the marker of a hexadecimal integer. -/
def startsHex : Text → Bool
  | '0' :: x :: _ => x = 'x' || x = 'X'
  | _ => false

/-- An integer whose digits are read: the suffix decides on its class. -/
def integer (r : Reading) : Scan :=
  if r.sees isLongSuffix then .accept (.literal .longInt) true (r.skip 1)
  else if r.sees isImaginarySuffix then .accept (.literal .complex) true (r.skip 1)
  else .accept (.literal .int) true r

/-- A float whose digits and exponent are read. -/
def float (r : Reading) : Scan :=
  if r.sees isLongSuffix then .reject (.malformedNumber .longSuffixOnFloat) (r.skip 1)
  else if r.sees isImaginarySuffix then .accept (.literal .complex) true (r.skip 1)
  else .accept (.literal .float) true r

/-- A hexadecimal integer, whose marker is two characters long. -/
def hexInteger (t : Text) : Scan :=
  let marker := (Reading.start t).skip 2
  if marker.sees isHexDigit then integer (marker.takeWhile isHexDigit)
  else .reject (.malformedNumber .missingHexDigits) marker

/-- A number up to its point and the digits behind it. -/
def fraction (whole : Reading) : Reading :=
  if whole.sees (· = '.') then (whole.skip 1).takeWhile Char.isDigit else whole

/-- An exponent up to its digits: the marker and the sign. -/
def exponentMarker (r : Reading) : Reading := (r.skip 1).takeIf isSign

/-- A decimal number: an integer without point and exponent, a float with either. -/
def decimal (t : Text) : Scan :=
  let whole := (Reading.start t).takeWhile Char.isDigit
  let mantissa := fraction whole
  if mantissa.sees isExponentMarker then
    let marker := exponentMarker mantissa
    if marker.sees Char.isDigit then float (marker.takeWhile Char.isDigit)
    else .reject (.malformedNumber .missingExponentDigits) marker
  else if whole.sees (· = '.') then float mantissa
  else integer whole

/-- The rule for numbers. -/
def number (t : Text) : Scan := if startsHex t then hexInteger t else decimal t

/-! ## Coverage -/

@[simp] theorem whole_integer (r : Reading) : (integer r).reading.whole = r.whole := by
  unfold integer
  split
  · simp
  · split <;> simp

@[simp] theorem whole_float (r : Reading) : (float r).reading.whole = r.whole := by
  unfold float
  split
  · simp
  · split <;> simp

@[simp] theorem whole_fraction (r : Reading) : (fraction r).whole = r.whole := by
  unfold fraction
  split <;> simp

theorem whole_number (t : Text) : (number t).reading.whole = t := by
  unfold number hexInteger decimal exponentMarker
  split
  · dsimp only
    split <;> simp
  · dsimp only
    split
    · split <;> simp
    · split <;> simp

/-! ## Progress -/

theorem length_left_integer_le (r : Reading) :
    (integer r).reading.left.length ≤ r.left.length := by
  unfold integer
  split
  · exact r.length_left_skip_le 1
  · split
    · exact r.length_left_skip_le 1
    · exact Nat.le_refl _

theorem length_left_float_le (r : Reading) : (float r).reading.left.length ≤ r.left.length := by
  unfold float
  split
  · exact r.length_left_skip_le 1
  · split
    · exact r.length_left_skip_le 1
    · exact Nat.le_refl _

theorem length_left_hexInteger_le (c : Char) (t : Text) :
    (hexInteger (c :: t)).reading.left.length ≤ t.length := by
  have hmarker : ((Reading.start (c :: t)).skip 2).left.length ≤ t.length := by
    simp [Reading.start, Reading.skip]
  unfold hexInteger
  dsimp only
  split
  · exact Nat.le_trans (length_left_integer_le _)
      (Nat.le_trans (Reading.length_left_takeWhile_le _ _) hmarker)
  · exact hmarker

/-- The digits and the point take at least one character of a number. -/
theorem length_left_fraction_le (c : Char) (t : Text) (h : c.isDigit = true ∨ c = '.') :
    (fraction ((Reading.start (c :: t)).takeWhile Char.isDigit)).left.length ≤ t.length := by
  by_cases hc : c.isDigit = true
  · have hwhole : ((Reading.start (c :: t)).takeWhile Char.isDigit).left.length ≤ t.length := by
      simp only [Reading.start, Reading.takeWhile, List.dropWhile_cons, hc, if_true]
      exact (List.dropWhile_suffix _).length_le
    unfold fraction
    split
    · exact Nat.le_trans (Reading.length_left_takeWhile_le _ _)
        (Nat.le_trans (Reading.length_left_skip_le _ _) hwhole)
    · exact hwhole
  · obtain rfl : c = '.' := h.resolve_left hc
    have hdot : Char.isDigit '.' = false := by decide
    have : ((Reading.start ('.' :: t)).takeWhile Char.isDigit).sees (· = '.') = true := by
      simp [Reading.start, Reading.takeWhile, Reading.sees, hdot]
    unfold fraction
    rw [if_pos this]
    refine Nat.le_trans (Reading.length_left_takeWhile_le _ _) ?_
    simp [Reading.start, Reading.takeWhile, Reading.skip, hdot]

theorem length_left_number_le (c : Char) (t : Text) (h : c.isDigit = true ∨ c = '.') :
    (number (c :: t)).reading.left.length ≤ t.length := by
  unfold number
  split
  · exact length_left_hexInteger_le c t
  · have hmantissa := length_left_fraction_le c t h
    unfold decimal
    dsimp only
    split
    · have hmarker := Nat.le_trans (Nat.le_trans (Reading.length_left_takeIf_le _ isSign)
        (Reading.length_left_skip_le _ 1)) hmantissa
      split
      · exact Nat.le_trans (length_left_float_le _)
          (Nat.le_trans (Reading.length_left_takeWhile_le _ _) hmarker)
      · exact hmarker
    · split
      · exact Nat.le_trans (length_left_float_le _) hmantissa
      · rename_i hdot
        have heq : fraction ((Reading.start (c :: t)).takeWhile Char.isDigit) =
            (Reading.start (c :: t)).takeWhile Char.isDigit := if_neg hdot
        rw [heq] at hmantissa
        exact Nat.le_trans (length_left_integer_le _) hmantissa

end Lexis.Rule
