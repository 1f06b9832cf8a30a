import Lexis.Toml.Reader
import Lexis.Toml.Value

/-!
# TOML strings, numbers and date-times

The values that have no parts. Strings are written between double quotes, with escapes, or between
single quotes, without; tripled quotes admit line breaks. Integers are decimal, or unsigned in
another base, and fit 64 bits; underscores may stand between digits.

* `Read.quoted`: a string on one line, which is also a way to write a key.
* `Read.string`, `Read.number`, `Read.dateTime`, `Read.boolean`: the values.
* `Read.wholeNumber`: a decimal integer without a sign.
-/

namespace Lexis.Toml.Read

/-- Space inside a line. -/
def isSpace (c : Char) : Bool := c = ' ' || c = '\t'

/-- A character that may stand in a comment or, quotes and escapes apart, in a string: no control
but the tab. -/
def isPlain (c : Char) : Bool := c = '\t' || (' ' ≤ c && c ≠ '\x7f')

/-- A hexadecimal digit of either case. -/
def isHexadecimal (c : Char) : Bool :=
  c.isDigit || ('a' ≤ c && c ≤ 'f') || ('A' ≤ c && c ≤ 'F')

/-- The value of a digit in any base up to sixteen. -/
def digitValue (c : Char) : Nat :=
  if c.isDigit then c.toNat - '0'.toNat else c.toLower.toNat - 'a'.toNat + 10

/-- The value of digits in a base, the first digit the highest. -/
def ofDigits (base : Nat) (digits : Text) : Nat :=
  digits.foldl (fun n c => base * n + digitValue c) 0

/-- The value of digits in a base, or `limit` if it is larger. No number on the way is much larger
than the limit, however many digits there are. -/
def ofDigitsUpTo (limit base : Nat) (digits : Text) : Nat :=
  digits.foldl (fun n c => min limit (base * n + digitValue c)) 0

theorem ofDigitsUpTo_eq (limit : Nat) {base : Nat} (h : 0 < base) (digits : Text) :
    ofDigitsUpTo limit base digits = min limit (ofDigits base digits) := by
  have step (n d : Nat) : min limit (base * min limit n + d) = min limit (base * n + d) := by
    have := Nat.le_mul_of_pos_left limit h
    have := Nat.le_mul_of_pos_left n h
    rcases Nat.le_total limit n with hle | hle
    · rw [Nat.min_eq_left hle, Nat.min_eq_left (by omega), Nat.min_eq_left (by omega)]
    · rw [Nat.min_eq_right hle]
  have key : ∀ n, digits.foldl (fun n c => min limit (base * n + digitValue c)) (min limit n) =
      min limit (digits.foldl (fun n c => base * n + digitValue c) n) := by
    induction digits with
    | nil => intro n; rfl
    | cons c digits ih =>
      intro n
      rw [List.foldl_cons, List.foldl_cons, step, ih]
  simpa [ofDigitsUpTo, ofDigits] using key 0

/-! ## Strings -/

/-- The character with a code point written in hexadecimal. -/
def codePoint? (digits : Text) : Option Char :=
  let n := ofDigits 16 digits
  if digits.all isHexadecimal && (n < 0xD800 || (0xDFFF < n && n < 0x110000)) then
    some (Char.ofNat n)
  else none

/-- The character that a backslash and a letter stand for. -/
def escape? : Char → Option Char
  | 'b' => some '\x08'
  | 't' => some '\t'
  | 'n' => some '\n'
  | 'f' => some '\x0c'
  | 'r' => some '\r'
  | '"' => some '"'
  | '\\' => some '\\'
  | _ => none

/-- What a string without escapes stands for. Line breaks need `multi`. -/
def literalText? (multi : Bool) : Text → Option Text
  | [] => some []
  | '\n' :: t => if multi then (literalText? multi t).map ('\n' :: ·) else none
  | '\r' :: '\n' :: t => if multi then (literalText? multi t).map ('\n' :: ·) else none
  | c :: t => if isPlain c then (literalText? multi t).map (c :: ·) else none

/-- Whether a line ends behind some space. -/
def endsLine (t : Text) : Bool :=
  match t.dropWhile isSpace with
  | '\n' :: _ => true
  | '\r' :: '\n' :: _ => true
  | _ => false

/-- What a string with escapes stands for. Line breaks need `multi`; a backslash at the end of a
line takes the space behind it, which is passed over while `passing`. -/
def basicText? (multi : Bool) : (passing : Bool) → Text → Option Text
  | _, [] => some []
  | passing, '\n' :: t => lineBreak passing (basicText? multi passing t)
  | passing, '\r' :: '\n' :: t => lineBreak passing (basicText? multi passing t)
  | _, '\\' :: 'u' :: a :: b :: c :: d :: t => do
    let char ← codePoint? [a, b, c, d]
    return char :: (← basicText? multi false t)
  | _, '\\' :: 'U' :: a :: b :: c :: d :: e :: f :: g :: h :: t => do
    let char ← codePoint? [a, b, c, d, e, f, g, h]
    return char :: (← basicText? multi false t)
  | _, '\\' :: c :: t =>
    match escape? c with
    | some char => (basicText? multi false t).map (char :: ·)
    | none => if multi && endsLine (c :: t) then basicText? multi true (c :: t) else none
  | passing, c :: t =>
    if passing && isSpace c then basicText? multi true t
    else if isPlain c && c ≠ '\\' then (basicText? multi false t).map (c :: ·)
    else none
where
  /-- A line break in front of `rest`. -/
  lineBreak (passing : Bool) (rest : Option Text) : Option Text :=
    if multi then if passing then rest else rest.map ('\n' :: ·) else none

/-- Splits a text at the first `quote`. Where `escapes` are in force, a backslash takes the
character behind it along. -/
def upToQuote (quote : Char) (escapes : Bool) : Reader Text
  | [] => none
  | c :: t =>
    if escapes && c = '\\' then
      match t with
      | [] => none
      | d :: t => (upToQuote quote escapes t).map fun (s, rest) => (c :: d :: s, rest)
    else if c = quote then some ([], t)
    else (upToQuote quote escapes t).map fun (s, rest) => (c :: s, rest)

/-- Splits a text at the first three `quote`s. Up to two more quotes behind them belong to the
string. -/
def upToQuotes (quote : Char) (escapes : Bool) : Reader Text
  | [] => none
  | c :: t =>
    if escapes && c = '\\' then
      match t with
      | [] => none
      | d :: t => (upToQuotes quote escapes t).map fun (s, rest) => (c :: d :: s, rest)
    else
      match Reader.strip? [quote, quote, quote] (c :: t) with
      | some rest =>
        let more := min 2 (rest.takeWhile (· = quote)).length
        some (List.replicate more quote, rest.drop more)
      | none => (upToQuotes quote escapes t).map fun (s, rest) => (c :: s, rest)

/-- A value that may be missing as a reader that takes nothing. -/
def ofOption {α : Type} (a? : Option α) : Reader α := fun t => a?.map (·, t)

/-- A string on one line. -/
def quoted : Reader Text := do
  if ← Reader.accept ['"'] then ofOption (basicText? false false (← upToQuote '"' true))
  else
    Reader.expect ['\'']
    ofOption (literalText? false (← upToQuote '\'' false))

/-- A string between tripled quotes. A line break behind the opening quotes is no part of it. -/
def multiQuoted : Reader Text := do
  let basic ← Reader.accept ['"', '"', '"']
  if !basic then Reader.expect ['\'', '\'', '\'']
  Reader.expect ['\n'] <|> Reader.expect ['\r', '\n'] <|> pure ()
  if basic then ofOption (basicText? true false (← upToQuotes '"' true))
  else ofOption (literalText? true (← upToQuotes '\'' false))

/-- A string. -/
def string : Reader Value := .string <$> (multiQuoted <|> quoted)

/-! ## Numbers -/

/-- The digits of a class at the front of a text, each but the first perhaps behind an
underscore. -/
def digitsBehind (p : Char → Bool) : Text → Text × Text
  | [] => ([], [])
  | [c] => if p c then ([c], []) else ([], [c])
  | c :: d :: t =>
    if p c then
      let (digits, rest) := digitsBehind p (d :: t)
      (c :: digits, rest)
    else if c = '_' && p d then
      let (digits, rest) := digitsBehind p t
      (d :: digits, rest)
    else ([], c :: d :: t)

/-- One or more digits of a class with underscores between them. -/
def digits (p : Char → Bool) : Reader Text
  | [] => none
  | c :: t => if p c then some (c :: (digitsBehind p t).1, (digitsBehind p t).2) else none

/-- A decimal integer without a sign: no zeros in front. -/
def wholeNumber : Reader Text
  | '0' :: t => some (['0'], t)
  | t => digits Char.isDigit t

/-- The least magnitude that no integer of 64 bits has. -/
def tooLarge : Nat := 9223372036854775809

/-- An integer if it fits 64 bits. -/
def integer? (n : Int) : Option Value :=
  if -9223372036854775808 ≤ n && n < 9223372036854775808 then some (.integer n) else none

/-- An unsigned integer in base 16, 8 or 2. -/
def basedInteger : Reader Value :=
  based ['0', 'x'] 16 isHexadecimal <|> based ['0', 'o'] 8 (fun c => '0' ≤ c && c ≤ '7') <|>
    based ['0', 'b'] 2 (fun c => c = '0' || c = '1')
where
  /-- An integer behind the mark of its base. -/
  based (mark : Text) (base : Nat) (p : Char → Bool) : Reader Value := do
    Reader.expect mark
    ofOption (integer? (ofDigitsUpTo tooLarge base (← digits p)))

/-- Whether a sign is a minus; no sign is a plus. -/
def sign : Reader Bool := do
  if ← Reader.accept ['-'] then return true
  let _ ← Reader.accept ['+']
  return false

/-- The exponent from which on further digits of it are not counted. -/
def exponentLimit : Nat := 65536

/-- The value of the digits of an exponent. Once it has reached the limit, the digits behind are
passed over, so `655369` counts as `65536` and `999999` as `99999`. -/
def exponentOf (digits : Text) : Nat :=
  digits.foldl (fun n c => if n < exponentLimit then 10 * n + digitValue c else n) 0

/-- The exponent of a number. -/
def exponent : Reader Int := do
  Reader.expect ['e'] <|> Reader.expect ['E']
  let negative ← sign
  let n := exponentOf (← digits Char.isDigit)
  return if negative then -n else n

/-- The least number that is too large for a double: the middle between the largest double and the
next power of two. -/
def doubleLimit : Nat := Nat.pow 2 1024 - Nat.pow 2 970

/-- The number of decimal digits of `doubleLimit`. -/
def doubleDigits : Nat := 309

/-- Whether a decimal fraction is too large for a double. The digits count from `10 ^ scale` on. Of
a number with as many digits in front of its point as the limit, those alone are compared. -/
def overflows (mantissa : Text) (scale : Int) : Bool :=
  let significant := mantissa.dropWhile (· = '0')
  let magnitude := significant.length + scale
  let front := significant.take doubleDigits
  let whole := ofDigits 10 front * Nat.pow 10 (doubleDigits - front.length)
  !significant.isEmpty &&
    (doubleDigits < magnitude || (magnitude = doubleDigits && doubleLimit ≤ whole))

/-- An integer, or a float if a point or an exponent follows its digits. -/
def decimal : Reader Value := do
  let negative ← sign
  let whole ← wholeNumber
  let fraction? ← Reader.optional (do Reader.expect ['.']; digits Char.isDigit)
  let exponent? ← Reader.optional exponent
  if fraction?.isNone && exponent?.isNone then
    let n : Int := ofDigitsUpTo tooLarge 10 whole
    ofOption (integer? (if negative then -n else n))
  else
    let fraction := fraction?.getD []
    if !negative && overflows (whole ++ fraction) (exponent?.getD 0 - fraction.length) then failure
    else return .float

/-- The floats that are written in letters. -/
def specialFloat : Reader Value := do
  let _ ← sign
  Reader.expect ['i', 'n', 'f'] <|> Reader.expect ['n', 'a', 'n']
  return .float

/-- A number. -/
def number : Reader Value := specialFloat <|> basedInteger <|> decimal

/-! ## Date-times -/

/-- A number of `n` digits in a range. -/
def field (n low high : Nat) : Reader Nat :=
  Reader.filter (ofDigits 10 <$> Reader.take n Char.isDigit) fun k => low ≤ k && k ≤ high

/-- The number of days of a month. -/
def daysIn (year month : Nat) : Nat :=
  if month = 2 then
    if year % 4 = 0 && (year % 100 ≠ 0 || year % 400 = 0) then 29 else 28
  else if month = 4 || month = 6 || month = 9 || month = 11 then 30
  else 31

/-- A day of the calendar. -/
def date : Reader Unit := do
  let year ← field 4 0 9999
  Reader.expect ['-']
  let month ← field 2 1 12
  Reader.expect ['-']
  let _ ← field 2 1 (daysIn year month)

/-- A time of day. -/
def time : Reader Unit := do
  let _ ← field 2 0 23
  Reader.expect [':']
  let _ ← field 2 0 59
  Reader.expect [':']
  let _ ← field 2 0 60
  let _ ← Reader.optional (do Reader.expect ['.']; Reader.takeWhile1 Char.isDigit)

/-- The distance from universal time. -/
def offset : Reader Unit :=
  Reader.expect ['Z'] <|> Reader.expect ['z'] <|> do
    Reader.expect ['+'] <|> Reader.expect ['-']
    let _ ← field 2 0 23
    Reader.expect [':']
    let _ ← field 2 0 59

/-- A date, a time, or both. -/
def dateTime : Reader Value := do
  let behindDate : Reader Unit := do
    Reader.expect ['T'] <|> Reader.expect ['t'] <|> Reader.expect [' ']
    time
    let _ ← Reader.optional offset
  (do date; let _ ← Reader.optional behindDate) <|> time
  return .dateTime

/-! ## Truth values -/

/-- A truth value. -/
def boolean : Reader Value :=
  (do Reader.expect ['t', 'r', 'u', 'e']; return .boolean true) <|>
    (do Reader.expect ['f', 'a', 'l', 's', 'e']; return .boolean false)

end Lexis.Toml.Read
