import Lexis.Lexer.Reading

/-!
# Operators

An operator is matched character by character, with nothing given back: its first character is
known, and each that may follow is taken if it is there. Most operators are one character that may
be followed by an equals sign, and three characters may be doubled before that.

* `Rule.withEqual`, `Rule.doubled`, `Rule.less`: what may follow a character.
* `Rule.operator?`: the operator that starts with a character.
* `Rule.firstOf?`: the first of some symbols whose spelling fits. `Rule.firstOf?_withEqual` and
  `Rule.firstOf?_sees_withEqual` compare it with what may follow a character.
* `Rule.longest?`: the symbol with the longest spelling at the start of a text.
  `Rule.operator?_eq` says that an operator is this symbol.
-/

namespace Lexis.Rule

/-! ## Matching -/

/-- Takes an equals sign for the one symbol, and nothing for the other. -/
def withEqual (longer shorter : Symbol) (r : Reading) : Symbol × Reading :=
  if r.sees (· = '=') then (longer, r.skip 1) else (shorter, r)

/-- What follows a character that may be doubled, either perhaps with an equals sign behind. -/
def doubled (mark : Char) (doubleEqual double singleEqual single : Symbol) (r : Reading) :
    Symbol × Reading :=
  if r.sees (· = mark) then withEqual doubleEqual double (r.skip 1)
  else withEqual singleEqual single r

/-- What follows a less sign. -/
def less (r : Reading) : Symbol × Reading :=
  if r.sees (· = '<') then withEqual .leftShiftEqual .leftShift (r.skip 1)
  else if r.sees (· = '>') then (.lessGreater, r.skip 1)
  else withEqual .lessEqual .less r

/-- The symbol that starts with a character, when that has been taken. -/
def operator? (c : Char) (r : Reading) : Option (Symbol × Reading) :=
  match c with
  | '(' => some (.leftParen, r)
  | ')' => some (.rightParen, r)
  | '[' => some (.leftBracket, r)
  | ']' => some (.rightBracket, r)
  | '\x7b' => some (.leftBrace, r)
  | '\x7d' => some (.rightBrace, r)
  | '@' => some (.atSign, r)
  | '.' => some (.dot, r)
  | ':' => some (.colon, r)
  | ',' => some (.comma, r)
  | ';' => some (.semicolon, r)
  | '\x60' => some (.backquote, r)
  | '~' => some (.tilde, r)
  | '+' => some (withEqual .plusEqual .plus r)
  | '-' => some (withEqual .minusEqual .minus r)
  | '%' => some (withEqual .percentEqual .percent r)
  | '&' => some (withEqual .ampersandEqual .ampersand r)
  | '|' => some (withEqual .barEqual .bar r)
  | '^' => some (withEqual .caretEqual .caret r)
  | '*' => some (doubled '*' .doubleStarEqual .doubleStar .starEqual .star r)
  | '/' => some (doubled '/' .doubleSlashEqual .doubleSlash .slashEqual .slash r)
  | '<' => some (less r)
  | '>' => some (doubled '>' .rightShiftEqual .rightShift .greaterEqual .greater r)
  | '=' => some (withEqual .equal .assign r)
  | '!' => if r.sees (· = '=') then some (.notEqual, r.skip 1) else none
  | _ => none

/-! ## The first spelling that fits -/

theorem sees_iff (c : Char) (r : Reading) : r.sees (· = c) = true ↔ [c] <+: r.left := by
  obtain ⟨taken, left⟩ := r
  cases left with
  | nil => simp [Reading.sees]
  | cons d left => simp [Reading.sees, eq_comm]

/-- The first of some symbols whose spelling starts the text, when the spelling has been taken. -/
def firstOf? (symbols : List Symbol) (r : Reading) : Option (Symbol × Reading) :=
  (symbols.find? fun s => s.spelling.toList.isPrefixOf r.whole).map fun s =>
    (s, (Reading.start r.whole).skip s.spelling.toList.length)

/-- A symbol that goes on from what is taken is the first if the rest of its spelling is there. -/
theorem firstOf?_cons {s : Symbol} {r : Reading} {rest : Text} (symbols : List Symbol)
    (h : s.spelling.toList = r.taken ++ rest) : firstOf? (s :: symbols) r =
      if rest <+: r.left then some (s, r.skip rest.length) else firstOf? symbols r := by
  have hprefix : s.spelling.toList.isPrefixOf r.whole = decide (rest <+: r.left) := by
    rw [h, Bool.eq_iff_iff, List.isPrefixOf_iff_prefix, Reading.whole,
      List.prefix_append_right_inj, decide_eq_true_iff]
  have hskip : (Reading.start r.whole).skip s.spelling.toList.length = r.skip rest.length := by
    simp [h, Reading.start, Reading.skip, Reading.whole, List.take_append, List.drop_append,
      List.take_of_length_le]
  rw [firstOf?, List.find?_cons, hprefix]
  by_cases hrest : rest <+: r.left
  · simp [hrest, hskip]
  · simp [hrest, firstOf?]

theorem firstOf?_whole {s : Symbol} {r : Reading} (symbols : List Symbol)
    (h : s.spelling.toList = r.taken) : firstOf? (s :: symbols) r = some (s, r) := by
  rw [firstOf?_cons symbols (h.trans (List.append_nil r.taken).symm)]
  simp [Reading.skip]

/-- A symbol that goes on with one character. -/
theorem firstOf?_sees {s : Symbol} {r : Reading} {c : Char} (symbols : List Symbol)
    (h : s.spelling.toList = r.taken ++ [c]) : firstOf? (s :: symbols) r =
      if r.sees (· = c) then some (s, r.skip 1) else firstOf? symbols r := by
  rw [firstOf?_cons symbols h]
  simp only [← sees_iff, List.length_singleton]

/-- Two symbols of which one goes on with an equals sign. -/
theorem firstOf?_withEqual {longer shorter : Symbol} {r : Reading} (symbols : List Symbol)
    (hlonger : longer.spelling.toList = r.taken ++ ['='])
    (hshorter : shorter.spelling.toList = r.taken) :
    firstOf? (longer :: shorter :: symbols) r = some (withEqual longer shorter r) := by
  rw [firstOf?_sees _ hlonger, firstOf?_whole _ hshorter, withEqual]
  split <;> rfl

/-- Two symbols that go on with the same character, one of them with an equals sign behind. -/
theorem firstOf?_sees_withEqual {longer shorter : Symbol} {r : Reading} {c : Char}
    (symbols : List Symbol) (hlonger : longer.spelling.toList = r.taken ++ [c, '='])
    (hshorter : shorter.spelling.toList = r.taken ++ [c]) :
    firstOf? (longer :: shorter :: symbols) r =
      if r.sees (· = c) then some (withEqual longer shorter (r.skip 1))
      else firstOf? symbols r := by
  split
  · rename_i hsees
    obtain ⟨taken, left⟩ := r
    obtain ⟨left, rfl⟩ := (sees_iff c _).mp hsees
    -- both spellings go on behind the character
    have hskip : Reading.skip ⟨taken, [c] ++ left⟩ 1 = ⟨taken ++ [c], left⟩ := rfl
    have hwhole : Reading.whole ⟨taken, [c] ++ left⟩ = Reading.whole ⟨taken ++ [c], left⟩ :=
      (List.append_assoc taken [c] left).symm
    rw [hskip, ← firstOf?_withEqual symbols (r := ⟨taken ++ [c], left⟩)
      (hlonger.trans (List.append_assoc taken [c] ['=']).symm) hshorter]
    rw [firstOf?, firstOf?, hwhole]
  · rename_i hsees
    have hfront : ¬ [c, '='] <+: r.left := fun h =>
      hsees ((sees_iff c r).mpr ((List.prefix_append [c] ['=']).trans h))
    rw [firstOf?_cons _ hlonger, if_neg hfront, firstOf?_sees _ hshorter, if_neg hsees]

/-! ## The longest spelling -/

/-- The symbol with the longest spelling at the start of a text, when the spelling has been
taken. -/
def longest? (t : Text) : Option (Symbol × Reading) :=
  (Symbol.read? t).map fun s => (s, (Reading.start t).skip s.spelling.toList.length)

/-- The symbols that start with a character, those with longer spellings first. -/
def startingWith (c : Char) : List Symbol :=
  Symbol.longestFirst.filter fun s => s.spelling.toList.head? = some c

/-- Only the symbols that start with the first character are looked at. -/
theorem longest?_cons (c : Char) (t : Text) :
    longest? (c :: t) = firstOf? (startingWith c) ⟨[c], t⟩ := by
  have hread : Symbol.read? (c :: t) =
      (startingWith c).find? fun s => s.spelling.toList.isPrefixOf (c :: t) := by
    rw [Symbol.read?, startingWith, List.find?_filter]
    congr 1
    funext s
    obtain ⟨d, spelling, hspelling⟩ := List.exists_cons_of_ne_nil s.spelling_ne_nil
    rw [hspelling, Bool.eq_iff_iff]
    simp
  rw [longest?, hread]
  rfl

/-- A symbol of one character that starts no other. -/
theorem longest?_single {c : Char} {s : Symbol} (hs : startingWith c = [s])
    (hspelling : s.spelling.toList = [c]) (t : Text) :
    longest? (c :: t) = some (s, ⟨[c], t⟩) := by
  rw [longest?_cons, hs]
  exact firstOf?_whole [] hspelling

/-- A character that may be followed by an equals sign. -/
theorem longest?_withEqual {c : Char} {longer shorter : Symbol}
    (hs : startingWith c = [longer, shorter]) (hlonger : longer.spelling.toList = [c, '='])
    (hshorter : shorter.spelling.toList = [c]) (t : Text) :
    longest? (c :: t) = some (withEqual longer shorter ⟨[c], t⟩) := by
  rw [longest?_cons, hs]
  exact firstOf?_withEqual [] hlonger hshorter

/-- A character that may be doubled. -/
theorem longest?_doubled {c : Char} {doubleEqual double singleEqual single : Symbol}
    (hs : startingWith c = [doubleEqual, double, singleEqual, single])
    (hdoubleEqual : doubleEqual.spelling.toList = [c, c, '='])
    (hdouble : double.spelling.toList = [c, c])
    (hsingleEqual : singleEqual.spelling.toList = [c, '='])
    (hsingle : single.spelling.toList = [c]) (t : Text) :
    longest? (c :: t) = some (doubled c doubleEqual double singleEqual single ⟨[c], t⟩) := by
  rw [longest?_cons, hs, firstOf?_sees_withEqual _ hdoubleEqual hdouble,
    firstOf?_withEqual _ hsingleEqual hsingle, doubled]
  split <;> rfl

/-- A less sign may be doubled as well, or stand in front of a greater sign. -/
theorem longest?_less (t : Text) : longest? ('<' :: t) = some (less ⟨['<'], t⟩) := by
  have hs : startingWith '<' = [.leftShiftEqual, .leftShift, .lessGreater, .lessEqual, .less] := by
    decide
  rw [longest?_cons, hs, firstOf?_sees_withEqual (c := '<') _ rfl rfl,
    firstOf?_sees (c := '>') _ rfl, firstOf?_withEqual _ rfl rfl, less]
  split
  · rfl
  · split <;> rfl

/-- An exclamation mark is nothing without an equals sign. -/
theorem longest?_exclamation (t : Text) : longest? ('!' :: t) =
    if Reading.sees ⟨['!'], t⟩ (· = '=') then some (.notEqual, Reading.skip ⟨['!'], t⟩ 1)
    else none := by
  have hs : startingWith '!' = [.notEqual] := by decide
  rw [longest?_cons, hs]
  exact firstOf?_sees [] rfl

/-- **The match is the longest spelling**: an operator that is matched character by character is the
symbol with the longest spelling at the start of the text, and its spelling is taken. -/
theorem operator?_eq (c : Char) (t : Text) : operator? c ⟨[c], t⟩ = longest? (c :: t) := by
  unfold operator?
  split
  -- brackets and other characters that stand alone
  iterate 13 exact (longest?_single (by decide) (by decide) t).symm
  -- characters with an equals sign, with one and doubled, and the less sign
  iterate 6 exact (longest?_withEqual (by decide) (by decide) (by decide) t).symm
  iterate 2 exact (longest?_doubled (by decide) (by decide) (by decide) (by decide) (by decide)
    t).symm
  · exact (longest?_less t).symm
  · exact (longest?_doubled (by decide) (by decide) (by decide) (by decide) (by decide) t).symm
  · exact (longest?_withEqual (by decide) (by decide) (by decide) t).symm
  · exact (longest?_exclamation t).symm
  · have hs : startingWith c = [] := by
      refine List.filter_eq_nil_iff.mpr fun s _ hs => ?_
      have hhead : s.spelling.toList.head? = some c := of_decide_eq_true hs
      cases s <;> exact absurd (Option.some.inj hhead).symm (by assumption)
    rw [longest?_cons, hs]
    rfl

end Lexis.Rule
