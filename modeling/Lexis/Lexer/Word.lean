import Lexis.Lexer.Operator

/-!
# Words and symbols

A word is read to its end before it is looked up, so a keyword is found only where the whole word
spells it. A symbol is matched character by character.

* `Rule.word`, `Rule.symbol`: the rules.
* `Rule.symbol_cons`: the rule for symbols takes the longest spelling at the start of the text, and
  refuses a character where there is none.
-/

namespace Lexis.Rule

/-- The kind of a word. -/
def wordKind (t : Text) : Kind :=
  match Keyword.ofText? t with
  | some k => .keyword k
  | none => .name

/-- A name or a keyword. -/
def word (t : Text) : Scan :=
  let r := (Reading.start t).takeWhile isIdentContinue
  .accept (wordKind r.taken) true r

theorem whole_word (t : Text) : (word t).reading.whole = t := by
  simp [word]

theorem length_left_word_le {c : Char} (t : Text) (h : isIdentContinue c = true) :
    (word (c :: t)).reading.left.length ≤ t.length := by
  simp only [word, Scan.reading_accept, Reading.start, Reading.takeWhile, List.dropWhile_cons, h,
    if_true]
  exact (List.dropWhile_suffix _).length_le

/-- A symbol, where `c` is the first character of the text. -/
def symbol (c : Char) (t : Text) : Scan :=
  match operator? c ((Reading.start t).skip 1) with
  | some (s, r) => .accept (.symbol s) true r
  | none => .reject (.unrecognized c) ((Reading.start t).skip 1)

/-- The longest spelling is taken, or one character refused. -/
theorem symbol_cons (c : Char) (t : Text) : symbol c (c :: t) =
    match Symbol.read? (c :: t) with
    | some s => .accept (.symbol s) true ((Reading.start (c :: t)).skip s.spelling.toList.length)
    | none => .reject (.unrecognized c) ((Reading.start (c :: t)).skip 1) := by
  have hskip : (Reading.start (c :: t)).skip 1 = ⟨[c], t⟩ := rfl
  rw [symbol, hskip, operator?_eq, longest?]
  cases Symbol.read? (c :: t) with
  | none => rfl
  | some s => rfl

theorem whole_symbol (c : Char) (t : Text) : (symbol c (c :: t)).reading.whole = c :: t := by
  rw [symbol_cons]
  split <;> simp

theorem length_left_symbol_le (c : Char) (t : Text) :
    (symbol c (c :: t)).reading.left.length ≤ t.length := by
  rw [symbol_cons]
  split
  · rename_i s _
    have hs := List.length_pos_iff.mpr s.spelling_ne_nil
    simp only [Scan.reading_accept, Reading.start, Reading.skip, List.length_drop,
      List.length_cons]
    omega
  · simp [Reading.start, Reading.skip]

end Lexis.Rule
