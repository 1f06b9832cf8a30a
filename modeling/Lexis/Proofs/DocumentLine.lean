import Lexis.Proofs.Unquote
import Lexis.Toml.Document

/-!
# Lines of a document

A line of a document that is written plainly, a header or a key with a value behind it, is read as
the statement that it stands for, in front of whatever lines follow. Most of the work is to see that
no other rule takes the front of it: a number might be the beginning of a date until the character
behind its digits is seen, and a string the first quote of three.

* `Toml.Reader.bind_of_some`, `Toml.Reader.orElse_of_none`: how a reader goes on.
* `Toml.Read.key_bare`: a key without quotes.
* `Toml.Read.Spells`: a text spells a value up to the end of its line.
  `Toml.Read.spells_string`, `Toml.Read.spells_integer` and the two for truth values say how.
* `Toml.Read.line_assign`, `Toml.Read.line_header`, `Toml.Read.line_empty`: whole lines.
* `Toml.Read.statements_of_lines`: a document of such lines has their statements.
-/

namespace Lexis.Toml

namespace Reader

variable {α β : Type} {r s : Reader α} {t u : Text} {a : α}

/-! ## How a reader goes on -/

theorem bind_of_some {f : α → Reader β} (h : r t = some (a, u)) : (r >>= f) t = f a u := by
  have hbind : (r >>= f) t = (r t).bind fun p => f p.1 p.2 := rfl
  rw [hbind, h]
  rfl

theorem bind_of_none {f : α → Reader β} (h : r t = none) : (r >>= f) t = none := by
  have hbind : (r >>= f) t = (r t).bind fun p => f p.1 p.2 := rfl
  rw [hbind, h]
  rfl

theorem map_of_some {f : α → β} (h : r t = some (a, u)) : (f <$> r) t = some (f a, u) := by
  have hmap : (f <$> r) t = (r t).bind fun p => some (f p.1, p.2) := rfl
  rw [hmap, h]
  rfl

theorem map_of_none {f : α → β} (h : r t = none) : (f <$> r) t = none := by
  have hmap : (f <$> r) t = (r t).bind fun p => some (f p.1, p.2) := rfl
  rw [hmap, h]
  rfl

theorem orElse_of_some {p : α × Text} (h : r t = some p) : (r <|> s) t = some p := by
  have horElse : (r <|> s) t = (r t).orElse fun _ => s t := rfl
  rw [horElse, h]
  rfl

theorem orElse_of_none (h : r t = none) : (r <|> s) t = s t := by
  have horElse : (r <|> s) t = (r t).orElse fun _ => s t := rfl
  rw [horElse, h]
  rfl

theorem optional_of_some (h : r t = some (a, u)) : optional r t = some (some a, u) := by
  rw [optional, h]

theorem optional_of_none (h : r t = none) : optional r t = some (none, t) := by
  rw [optional, h]

/-! ## Single characters -/

theorem expect_cons_self (c : Char) (t : Text) : expect [c] (c :: t) = some ((), t) := by
  simp [expect, strip?]

theorem expect_of_head {c d : Char} {front : Text} (h : d ≠ c) (t : Text) :
    expect (c :: front) (d :: t) = none := by
  simp [expect, strip?, h.symm]

theorem accept_of_head {c d : Char} {front : Text} (h : d ≠ c) (t : Text) :
    accept (c :: front) (d :: t) = some (false, d :: t) := by
  simp [accept, strip?, h.symm]

/-- The characters of a class are taken up to the first that is not in it. -/
theorem takeWhile_append {p : Char → Bool} {front : Text} (hfront : front.all p = true)
    (ht : t.head?.any p = false) : takeWhile p (front ++ t) = some (front, t) := by
  have hall := List.all_eq_true.mp hfront
  rw [takeWhile, List.takeWhile_append_of_pos hall, List.dropWhile_append_of_pos hall]
  cases t with
  | nil => simp
  | cons c t =>
    have hc : p c = false := by simpa using ht
    simp [hc]

/-! ## Separators -/

theorem behind_of_none {separator : Reader Unit} {item : Reader α} (h : separator t = none)
    (bound : Text) : behind separator item bound t = some ([], t) := by
  cases bound with
  | nil => rfl
  | cons c bound =>
    have hitem : (do separator; item) t = none := bind_of_none h
    simp only [behind, hitem]

/-- A value without a separator behind it is the only one. -/
theorem separatedBy_of_none {separator : Reader Unit} {item : Reader α}
    (hitem : item t = some (a, u)) (hseparator : separator u = none) :
    separatedBy separator item t = some ([a], u) :=
  (bind_of_some hitem).trans (bind_of_some (behind_of_none hseparator t))

end Reader

namespace Read

open Reader

/-! ## Keys -/

theorem isSpace_of_isBare {c : Char} (h : isBare c = true) : isSpace c = false := by
  rw [← Bool.not_eq_true]
  intro hspace
  have hc : c = ' ' ∨ c = '\t' := by simpa [isSpace] using hspace
  rcases hc with rfl | rfl
  · contradiction
  · contradiction

theorem space_of_head {t : Text} (h : t.head?.any isSpace = false) : space t = some ((), t) := by
  have hnone : takeWhile isSpace ([] ++ t) = some ([], t) := takeWhile_append rfl h
  exact bind_of_some hnone

theorem space_cons {t : Text} (h : t.head?.any isSpace = false) :
    space (' ' :: t) = some ((), t) := by
  have hone : takeWhile isSpace ([' '] ++ t) = some ([' '], t) := takeWhile_append rfl h
  exact bind_of_some hone

/-- A text that starts with neither quote is not quoted. -/
theorem quoted_of_head {c : Char} (h : c ≠ '"') (h' : c ≠ '\'') (t : Text) :
    quoted (c :: t) = none :=
  (bind_of_some (accept_of_head h t)).trans (bind_of_none (expect_of_head h' t))

/-- A part of a key without quotes. -/
theorem keyPart_bare {c : Char} {k gap t : Text} (hbare : (c :: k).all isBare = true)
    (hgap : (gap ++ t).head?.any isBare = false) (hspace : space (gap ++ t) = some ((), t)) :
    keyPart (c :: k ++ (gap ++ t)) = some (c :: k, t) := by
  have hc : isBare c = true := List.all_eq_true.mp hbare c List.mem_cons_self
  have hfront : space (c :: k ++ (gap ++ t)) = some ((), c :: k ++ (gap ++ t)) :=
    space_of_head (isSpace_of_isBare hc)
  have hquoted : quoted (c :: k ++ (gap ++ t)) = none := by
    refine quoted_of_head ?_ ?_ _
    · rintro rfl
      contradiction
    · rintro rfl
      contradiction
  have hpart : takeWhile1 isBare (c :: k ++ (gap ++ t)) = some (c :: k, gap ++ t) :=
    (if_pos hc).trans (takeWhile_append hbare hgap)
  refine (bind_of_some hfront).trans ?_
  refine (bind_of_some ((orElse_of_none hquoted).trans hpart)).trans ?_
  exact bind_of_some hspace

/-- **A key without quotes** is read with the space behind it. -/
theorem key_bare {k gap t : Text} (hk : k ≠ []) (hbare : k.all isBare = true)
    (hgap : (gap ++ t).head?.any isBare = false) (hspace : space (gap ++ t) = some ((), t))
    (hdot : expect ['.'] t = none) : key (k ++ (gap ++ t)) = some (⟨[], k⟩, t) := by
  obtain ⟨c, k, rfl⟩ := List.exists_cons_of_ne_nil hk
  have hpart := keyPart_bare hbare hgap hspace
  exact bind_of_some (separatedBy_of_none hpart hdot)

/-! ## Strings and truth values -/

/-- The text spells the value up to the end of its line, and no space stands in front of it. -/
structure Spells (v : Text) (x : Value) : Prop where
  head : v.head?.any isSpace = false
  read (rest : Text) : scalar (v ++ '\n' :: rest) = some (x, '\n' :: rest)

theorem spells_true : Spells ['t', 'r', 'u', 'e'] (.boolean true) := ⟨rfl, fun _ => rfl⟩

theorem spells_false : Spells ['f', 'a', 'l', 's', 'e'] (.boolean false) := ⟨rfl, fun _ => rfl⟩

/-- A character that stands for itself between double quotes. -/
def isUnescaped (c : Char) : Bool := isPlain c && c ≠ '"' && c ≠ '\\'

theorem isUnescaped_iff {c : Char} :
    isUnescaped c = true ↔ isPlain c = true ∧ c ≠ '"' ∧ c ≠ '\\' := by
  simp [isUnescaped, and_assoc]

theorem upToQuote_unescaped {name : Text} (h : name.all isUnescaped = true) (t : Text) :
    upToQuote '"' true (name ++ '"' :: t) = some (name, t) := by
  induction name with
  | nil =>
    rw [List.nil_append, upToQuote.eq_def]
    simp
  | cons c name ih =>
    obtain ⟨hc, hname⟩ := (Bool.and_eq_true _ _).mp h
    obtain ⟨-, hquote, hback⟩ := isUnescaped_iff.mp hc
    rw [List.cons_append, upToQuote.eq_def]
    simp [hback, hquote, ih hname]

theorem basicText?_unescaped {name : Text} (h : name.all isUnescaped = true) :
    basicText? false false name = some name := by
  induction name with
  | nil => rfl
  | cons c name ih =>
    obtain ⟨hc, hname⟩ := (Bool.and_eq_true _ _).mp h
    obtain ⟨hplain, -, hback⟩ := isUnescaped_iff.mp hc
    have hfeed : c ≠ '\n' := by
      rintro rfl
      contradiction
    have hreturn : c ≠ '\r' := by
      rintro rfl
      contradiction
    rw [basicText?]
    · simp [hplain, hback, ih hname]
    · exact hfeed
    · exact fun _ h _ => hreturn h
    · exact fun _ _ _ _ _ h _ => hback h
    · exact fun _ _ _ _ _ _ _ _ _ h _ => hback h
    · exact fun _ _ h _ => hback h

/-- A text that starts with neither quote is no string. -/
theorem string_of_head {c : Char} (h : c ≠ '"') (h' : c ≠ '\'') (t : Text) :
    string (c :: t) = none := by
  have hmulti : multiQuoted (c :: t) = none :=
    (bind_of_some (accept_of_head h t)).trans (bind_of_none (expect_of_head h' t))
  exact map_of_none ((orElse_of_none hmulti).trans (quoted_of_head h h' t))

/-- **A string** of characters that stand for themselves. -/
theorem spells_string {name : Text} (h : name.all isUnescaped = true) :
    Spells ('"' :: name ++ ['"']) (.string name) where
  head := rfl
  read rest := by
    have hstrip : strip? ['"', '"', '"'] ('"' :: (name ++ '"' :: '\n' :: rest)) = none := by
      cases name with
      | nil => rfl
      | cons c name =>
        have hquote := (isUnescaped_iff.mp ((Bool.and_eq_true _ _).mp h).1).2.1
        simp [strip?, hquote.symm]
    have haccept : accept ['"', '"', '"'] ('"' :: (name ++ '"' :: '\n' :: rest)) =
        some (false, '"' :: (name ++ '"' :: '\n' :: rest)) := by
      rw [accept, hstrip]
    have hmulti : multiQuoted ('"' :: (name ++ '"' :: '\n' :: rest)) = none :=
      (bind_of_some haccept).trans rfl
    have hquoted : quoted ('"' :: (name ++ '"' :: '\n' :: rest)) = some (name, '\n' :: rest) := by
      have hbody := upToQuote_unescaped h ('\n' :: rest)
      have hopen : accept ['"'] ('"' :: (name ++ '"' :: '\n' :: rest)) =
          some (true, name ++ '"' :: '\n' :: rest) := by
        simp [accept, strip?]
      refine (bind_of_some hopen).trans ((bind_of_some hbody).trans ?_)
      rw [basicText?_unescaped h]
      rfl
    have hstring : string ('"' :: name ++ ['"'] ++ '\n' :: rest) =
        some (.string name, '\n' :: rest) := by
      rw [List.append_assoc]
      exact map_of_some ((orElse_of_none hmulti).trans hquoted)
    exact orElse_of_some hstring

/-! ## Integers -/

/-- A field is a text of digits at the front. -/
theorem exists_of_field {n low high k : Nat} {t u : Text}
    (h : field n low high t = some (k, u)) :
    ∃ front, t = front ++ u ∧ front.all Char.isDigit = true := by
  obtain ⟨⟨k', u'⟩, hdigits, hrange⟩ := Option.bind_eq_some_iff.mp h
  obtain ⟨⟨front, v⟩, htake, hv⟩ := Option.bind_eq_some_iff.mp hdigits
  obtain ⟨hfront, hrest⟩ := Option.ite_none_right_eq_some.mp htake
  obtain ⟨-, hu⟩ := Option.ite_none_right_eq_some.mp hrange
  obtain ⟨-, rfl⟩ := Prod.mk.inj (Option.some.inj hv)
  obtain ⟨-, rfl⟩ := Prod.mk.inj (Option.some.inj hu)
  obtain ⟨rfl, rfl⟩ := Prod.mk.inj (Option.some.inj hrest)
  exact ⟨t.take n, (List.take_append_drop n t).symm, ((Bool.and_eq_true _ _).mp hfront).2⟩

/-- No other mark than the end of the line follows digits at its front. -/
theorem expect_of_field {ds rest u : Text} {n low high k : Nat} (hds : ds.all Char.isDigit = true)
    (h : field n low high (ds ++ '\n' :: rest) = some (k, u)) {c : Char} (hc : c.isDigit = false)
    (hfeed : '\n' ≠ c) : expect [c] u = none := by
  obtain ⟨front, hsplit, hfront⟩ := exists_of_field h
  obtain ⟨more, rfl, hu⟩ | ⟨more, rfl, rfl⟩ := List.append_eq_append_iff.mp hsplit
  · cases more with
    | nil =>
      obtain rfl : '\n' :: rest = u := hu
      exact expect_of_head hfeed rest
    | cons d more =>
      obtain ⟨rfl, -⟩ := List.cons.inj hu
      simp at hfront
  · cases more with
    | nil => exact expect_of_head hfeed rest
    | cons d more =>
      have hd : d.isDigit = true := List.all_eq_true.mp hds d (by simp)
      refine expect_of_head ?_ _
      rintro rfl
      rw [hd] at hc
      contradiction

theorem dateTime_of_digits {ds : Text} (hds : ds.all Char.isDigit = true) (rest : Text) :
    dateTime (ds ++ '\n' :: rest) = none := by
  have hdate : date (ds ++ '\n' :: rest) = none := by
    cases hyear : field 4 0 9999 (ds ++ '\n' :: rest) with
    | none => exact bind_of_none hyear
    | some p =>
      exact (bind_of_some hyear).trans
        (bind_of_none (expect_of_field hds hyear (by decide) (by decide)))
  have htime : time (ds ++ '\n' :: rest) = none := by
    cases hhour : field 2 0 23 (ds ++ '\n' :: rest) with
    | none => exact bind_of_none hhour
    | some p =>
      exact (bind_of_some hhour).trans
        (bind_of_none (expect_of_field hds hhour (by decide) (by decide)))
  exact bind_of_none ((orElse_of_none (bind_of_none hdate)).trans htime)

/-- No zero stands in front of the digits of a number, unless it is the only digit. -/
theorem head?_toDigits {n : Nat} (hn : n ≠ 0) : (Nat.toDigits 10 n).head? ≠ some '0' := by
  induction n using Nat.strongRecOn with
  | ind n ih =>
    by_cases hlow : n < 10
    · rw [Nat.toDigits_of_lt_base hlow]
      have hdigit : ∀ d < 10, d ≠ 0 → Nat.digitChar d ≠ '0' := by decide
      simpa using hdigit n hlow hn
    · have hfront := ih (n / 10) (by omega) (by omega)
      rw [Nat.toDigits_of_base_le (by omega) (by omega)]
      match hdigits : Nat.toDigits 10 (n / 10) with
      | [] => exact absurd hdigits Nat.toDigits_ne_nil
      | d :: ds => rwa [hdigits] at hfront

theorem digitsBehind_append {p : Char → Bool} {ds : Text} (hds : ds.all p = true)
    (hp : p '\n' = false) (rest : Text) :
    digitsBehind p (ds ++ '\n' :: rest) = (ds, '\n' :: rest) := by
  induction ds with
  | nil => cases rest <;> simp [digitsBehind, hp]
  | cons d ds ih =>
    obtain ⟨hd, hrest⟩ := (Bool.and_eq_true _ _).mp hds
    have hbehind := ih hrest
    cases ds with
    | nil => simpa [digitsBehind, hd] using Prod.mk.inj hbehind
    | cons e ds => simpa [digitsBehind, hd] using Prod.mk.inj hbehind

theorem wholeNumber_digits {d : Char} {ds : Text} (hds : (d :: ds).all Char.isDigit = true)
    (hzero : d = '0' → ds = []) (rest : Text) :
    wholeNumber (d :: ds ++ '\n' :: rest) = some (d :: ds, '\n' :: rest) := by
  by_cases hd : d = '0'
  · obtain rfl := hzero hd
    subst hd
    rfl
  · obtain ⟨hdigit, hrest⟩ := (Bool.and_eq_true _ _).mp hds
    rw [List.cons_append, wholeNumber]
    · simp [digits, hdigit, digitsBehind_append hrest (by decide) rest]
    · exact fun _ h => hd (List.cons.inj h).1

/-- A digit is no sign, and none of the letters and marks that a value may start with. -/
theorem ne_of_isDigit {c d : Char} (hc : c.isDigit = true) (hd : d.isDigit = false) : c ≠ d := by
  rintro rfl
  rw [hc] at hd
  contradiction

theorem sign_of_digit {d : Char} (hd : d.isDigit = true) (t : Text) :
    sign (d :: t) = some (false, d :: t) :=
  (bind_of_some (accept_of_head (ne_of_isDigit hd (by decide)) t)).trans
    (bind_of_some (accept_of_head (ne_of_isDigit hd (by decide)) t))

theorem specialFloat_of_digit {d : Char} (hd : d.isDigit = true) (t : Text) :
    specialFloat (d :: t) = none := by
  have hname : (expect ['i', 'n', 'f'] <|> expect ['n', 'a', 'n']) (d :: t) = none :=
    (orElse_of_none (expect_of_head (ne_of_isDigit hd (by decide)) t)).trans
      (expect_of_head (ne_of_isDigit hd (by decide)) t)
  exact (bind_of_some (sign_of_digit hd t)).trans (bind_of_none hname)

/-- A zero is the beginning of a number in another base only if a letter follows it. -/
theorem basedInteger_of_digits {d : Char} {ds : Text} (hzero : d = '0' → ds = []) (rest : Text) :
    basedInteger (d :: ds ++ '\n' :: rest) = none := by
  have hmark (c : Char) (hc : '\n' ≠ c) :
      expect ['0', c] (d :: ds ++ '\n' :: rest) = none := by
    by_cases hd : d = '0'
    · obtain rfl := hzero hd
      simp [expect, strip?, hd, hc.symm]
    · exact expect_of_head hd _
  refine (orElse_of_none (bind_of_none (hmark 'x' (by decide)))).trans ?_
  refine (orElse_of_none (bind_of_none (hmark 'o' (by decide)))).trans ?_
  exact bind_of_none (hmark 'b' (by decide))

theorem integer?_natCast {n : Nat} (h : n < 9223372036854775808) :
    integer? n = some (.integer n) := by
  have hlow : (-9223372036854775808 : Int) ≤ n := by omega
  have hhigh : (n : Int) < 9223372036854775808 := by omega
  simp [integer?, hlow, hhigh]

/-- Digits at the end of a line are an integer, neither a fraction nor a power. -/
theorem decimal_digits {n : Nat} (h : n < 9223372036854775808) {d : Char} {ds : Text}
    (hds : Nat.toDigits 10 n = d :: ds) (hall : (d :: ds).all Char.isDigit = true)
    (hzero : d = '0' → ds = []) (rest : Text) :
    decimal (d :: ds ++ '\n' :: rest) = some (.integer n, '\n' :: rest) := by
  have hvalue : ofDigitsUpTo tooLarge 10 (d :: ds) = n := by
    rw [ofDigitsUpTo_eq tooLarge (by omega), ← hds, ofDigits_toDigits (by omega) (by omega)]
    exact Nat.min_eq_right (by simp only [tooLarge]; omega)
  have hd := ((Bool.and_eq_true _ _).mp hall).1
  refine (bind_of_some (sign_of_digit hd _)).trans ?_
  refine (bind_of_some (wholeNumber_digits hall hzero rest)).trans ?_
  refine (bind_of_some (optional_of_none rfl)).trans ?_
  refine (bind_of_some (optional_of_none rfl)).trans ?_
  have hinteger : (ofOption (integer? (ofDigitsUpTo tooLarge 10 (d :: ds) : Nat)))
      ('\n' :: rest) = some (.integer n, '\n' :: rest) := by
    rw [hvalue, integer?_natCast h]
    rfl
  exact hinteger

/-- The digits of a number, the first of them apart. -/
theorem exists_toDigits (n : Nat) : ∃ d ds, Nat.toDigits 10 n = d :: ds ∧
    (d :: ds).all Char.isDigit = true ∧ (d = '0' → ds = []) := by
  obtain ⟨d, ds, hdigits⟩ := List.exists_cons_of_ne_nil (Nat.toDigits_ne_nil (n := n) (b := 10))
  refine ⟨d, ds, hdigits, ?_, ?_⟩
  · rw [← hdigits]
    exact List.all_eq_true.mpr fun c hc => Nat.isDigit_of_mem_toDigits (by omega) (by omega) hc
  · rintro rfl
    by_cases hn : n = 0
    · subst hn
      exact (List.cons.inj hdigits).2.symm
    · exact absurd (by rw [hdigits]; rfl) (head?_toDigits hn)

/-- **A number** in decimal digits. -/
theorem spells_integer {n : Nat} (h : n < 9223372036854775808) :
    Spells (Nat.toDigits 10 n) (.integer n) := by
  obtain ⟨d, ds, hdigits, hall, hzero⟩ := exists_toDigits n
  have hd := ((Bool.and_eq_true _ _).mp hall).1
  rw [hdigits]
  refine ⟨?_, fun rest => ?_⟩
  · have hbare : isBare d = true := by simp [isBare, Char.isAlphanum, hd]
    exact isSpace_of_isBare hbare
  · have hstring : string (d :: ds ++ '\n' :: rest) = none :=
      string_of_head (ne_of_isDigit hd (by decide)) (ne_of_isDigit hd (by decide)) _
    have hboolean : boolean (d :: ds ++ '\n' :: rest) = none :=
      (orElse_of_none (bind_of_none (expect_of_head (ne_of_isDigit hd (by decide)) _))).trans
        (bind_of_none (expect_of_head (ne_of_isDigit hd (by decide)) _))
    have hnumber : number (d :: ds ++ '\n' :: rest) = some (.integer n, '\n' :: rest) :=
      (orElse_of_none (specialFloat_of_digit hd _)).trans
        ((orElse_of_none (basedInteger_of_digits hzero rest)).trans
          (decimal_digits h hdigits hall hzero rest))
    exact (orElse_of_none hstring).trans ((orElse_of_none hboolean).trans
      ((orElse_of_none (dateTime_of_digits hall rest)).trans hnumber))

/-! ## Lines -/

theorem line_empty : line.Takes ['\n'] none := fun _ => rfl

/-- **A header** opens its table. -/
theorem line_header {k : Text} (hk : k ≠ []) (hbare : k.all isBare = true) :
    line.Takes ('[' :: (k ++ [']', '\n'])) (some (.openTable ⟨[], k⟩)) := by
  intro rest
  have hkey : key (k ++ ([] ++ ']' :: '\n' :: rest)) = some (⟨[], k⟩, ']' :: '\n' :: rest) :=
    key_bare hk hbare rfl rfl rfl
  obtain ⟨c, k, rfl⟩ := List.exists_cons_of_ne_nil hk
  have hc : c ≠ '[' := by
    rintro rfl
    simp [isBare] at hbare
  have hsingle : accept ['[', '['] ('[' :: (c :: k ++ ([] ++ ']' :: '\n' :: rest))) =
      some (false, '[' :: (c :: k ++ ([] ++ ']' :: '\n' :: rest))) := by
    simp [accept, strip?, hc.symm]
  have hheader : header ('[' :: (c :: k ++ ([] ++ ']' :: '\n' :: rest))) =
      some (.openTable ⟨[], c :: k⟩, '\n' :: rest) :=
    (bind_of_some hsingle).trans ((bind_of_some (expect_cons_self _ _)).trans
      ((bind_of_some hkey).trans (bind_of_some (expect_cons_self _ _))))
  have hline : line ('[' :: (c :: k ++ ([] ++ ']' :: '\n' :: rest))) =
      some (some (.openTable ⟨[], c :: k⟩), rest) :=
    (bind_of_some (space_of_head rfl)).trans
      ((bind_of_some (optional_of_some (orElse_of_some hheader))).trans rfl)
  simpa using hline

theorem value_of_scalar {t : Text} {p : Value × Text} (h : scalar t = some p) (depth : Nat) :
    value depth t = some p := by
  cases depth with
  | zero => exact h
  | succ depth => exact orElse_of_some h

/-- **An assignment** gives its key the value that is spelt behind it. -/
theorem line_assign {k v : Text} {x : Value} (hk : k ≠ []) (hbare : k.all isBare = true)
    (hv : Spells v x) :
    line.Takes (k ++ ' ' :: '=' :: ' ' :: (v ++ ['\n'])) (some (.assign ⟨[], k⟩ x)) := by
  intro rest
  have hkey : key (k ++ ([' '] ++ '=' :: ' ' :: (v ++ '\n' :: rest))) =
      some (⟨[], k⟩, '=' :: ' ' :: (v ++ '\n' :: rest)) :=
    key_bare hk hbare rfl (space_cons rfl) rfl
  have hhead : (v ++ '\n' :: rest).head?.any isSpace = false := by
    cases v with
    | nil => rfl
    | cons c v => exact hv.head
  have hvalue := value_of_scalar (hv.read rest) (maxNesting - 1)
  have hassignment : assignment (value (maxNesting - 1))
      (k ++ ([' '] ++ '=' :: ' ' :: (v ++ '\n' :: rest))) =
        some ((⟨[], k⟩, x), '\n' :: rest) :=
    (bind_of_some hkey).trans ((bind_of_some (expect_cons_self _ _)).trans
      ((bind_of_some (space_cons hhead)).trans (bind_of_some hvalue)))
  obtain ⟨c, k, rfl⟩ := List.exists_cons_of_ne_nil hk
  have hc : isBare c = true := List.all_eq_true.mp hbare c List.mem_cons_self
  have hbracket : c ≠ '[' := by
    rintro rfl
    contradiction
  have hheader : header (c :: k ++ ([' '] ++ '=' :: ' ' :: (v ++ '\n' :: rest))) = none :=
    (bind_of_some (accept_of_head hbracket _)).trans (bind_of_none (expect_of_head hbracket _))
  have hspace : space (c :: k ++ ([' '] ++ '=' :: ' ' :: (v ++ '\n' :: rest))) =
      some ((), c :: k ++ ([' '] ++ '=' :: ' ' :: (v ++ '\n' :: rest))) :=
    space_of_head (isSpace_of_isBare hc)
  have hline : line (c :: k ++ ([' '] ++ '=' :: ' ' :: (v ++ '\n' :: rest))) =
      some (some (.assign ⟨[], c :: k⟩ x), rest) :=
    (bind_of_some hspace).trans
      ((bind_of_some (optional_of_some
        ((orElse_of_none hheader).trans (bind_of_some hassignment)))).trans rfl)
  simpa using hline

/-! ## Documents -/

/-- Lines that are read one by one are read together. -/
theorem lines_of_takes {ls : List (Text × Option Statement)}
    (h : ∀ l ∈ ls, l.1 ≠ [] ∧ line.Takes l.1 l.2) {bound : Text}
    (hbound : ls.length ≤ bound.length) :
    lines bound (ls.flatMap Prod.fst) = some (ls.flatMap (·.2.toList)) := by
  induction ls generalizing bound with
  | nil => cases bound <;> rfl
  | cons l ls ih =>
    obtain ⟨hne, htakes⟩ := h l List.mem_cons_self
    cases bound with
    | nil => contradiction
    | cons b bound =>
      have hrest := ih (fun m hm => h m (List.mem_cons_of_mem l hm))
        (Nat.le_of_succ_le_succ hbound)
      have hline := htakes (ls.flatMap Prod.fst)
      obtain ⟨c, t, hl⟩ := List.exists_cons_of_ne_nil hne
      rw [hl] at hline
      rw [List.flatMap_cons, List.flatMap_cons, hl]
      simp only [List.cons_append] at hline ⊢
      simp [lines, hline, hrest]

/-- **A document** of such lines has their statements. -/
theorem statements_of_lines {ls : List (Text × Option Statement)}
    (h : ∀ l ∈ ls, l.1 ≠ [] ∧ line.Takes l.1 l.2)
    (hmark : (ls.flatMap Prod.fst).head? ≠ some '\uFEFF') :
    statements (ls.flatMap Prod.fst) = some (ls.flatMap (·.2.toList)) := by
  have hlength : ls.length ≤ (ls.flatMap Prod.fst).length := by
    clear hmark
    induction ls with
    | nil => exact Nat.le_refl 0
    | cons l ls ih =>
      have hrest := ih fun m hm => h m (List.mem_cons_of_mem l hm)
      have hl := List.length_pos_iff.mpr (h l List.mem_cons_self).1
      rw [List.flatMap_cons, List.length_append, List.length_cons]
      omega
  have hlines := lines_of_takes h hlength
  rw [statements]
  · exact hlines
  · intro t ht
    exact hmark (by rw [ht]; rfl)

end Read

end Lexis.Toml
