import Lexis.Span

/-!
# Cursors

A cursor walks over a source by characters and keeps its place as a byte offset with the line and
column. A place may be restored from anywhere, also from inside a character or past the end; what
cannot be answered there is a fault.

* `Cursor.view`: the source from the place on, which is kept at hand.
* `Cursor.peek`: the character some way ahead. As long as all bytes up to it are below 128 it is
  found by its byte offset; otherwise the characters are counted.
* `Cursor.window?`: the bytes that are looked at; `Cursor.window?_eq` gives them by their offsets.
* `Cursor.advance`, `Cursor.advanceBy`, `Cursor.eatWhile`: steps forward.
* `Cursor.sliceFrom`, `Cursor.remaining`: parts of the source.
-/

namespace Lexis

/-- A place in a source. -/
structure Cursor where
  /-- The source. -/
  source : Text
  /-- The place. -/
  mark : Mark := Mark.origin
  /-- The source from the character at the place on, and how far inside it the place is. -/
  view : Text × Nat := Text.seek source mark.offset
  /-- The view is that of the place. -/
  view_eq : view = Text.seek source mark.offset := by rfl
  deriving DecidableEq, Repr

namespace Cursor

/-- The cursor at another place. A place ahead is sought from the present one on. -/
def moveTo (c : Cursor) (mark : Mark) : Cursor :=
  if h : c.mark.offset ≤ mark.offset then
    { source := c.source
      mark
      view := Text.seek c.view.1 (c.view.2 + (mark.offset - c.mark.offset))
      view_eq := by rw [c.view_eq, ← Text.seek_add, Nat.add_sub_cancel' h] }
  else { source := c.source, mark }

/-- Whether a byte is a whole character by itself. -/
def isAscii (b : UInt8) : Bool := b < 128

/-- The first `n` bytes from the place on, or all if there are less. Past the end there is no
window, not even an empty one. -/
def window? (c : Cursor) (n : Nat) : Option (List UInt8) :=
  match c.view with
  | ([], _ + 1) => none
  | (rest, inside) => some (((Text.encode (rest.take (inside + n))).drop inside).take n)

theorem window?_eq (c : Cursor) (n : Nat) :
    c.window? n = if c.mark.offset ≤ Text.byteSize c.source then
      some (((Text.encode c.source).drop c.mark.offset).take n) else none := by
  have past := Text.seek_eq_past_iff c.source c.mark.offset
  rw [window?, c.view_eq]
  split
  · rename_i k heq
    rw [if_neg (by have := past.mp ⟨k, heq⟩; omega)]
  · rename_i rest inside hpast heq
    have hle : c.mark.offset ≤ Text.byteSize c.source := by
      refine Nat.not_lt.mp fun hlt => ?_
      obtain ⟨k, hk⟩ := past.mpr hlt
      obtain ⟨rfl, rfl⟩ := Prod.mk.inj (heq.symm.trans hk)
      exact hpast k rfl rfl
    rw [if_pos hle, Text.drop_encode c.source, heq, List.take_drop, List.take_drop,
      Text.take_encode_take]

/-- The source from the place on. -/
def remaining (c : Cursor) : Checked Text :=
  Checked.ofRange (if c.view.2 = 0 then some c.view.1 else none)

theorem remaining_eq (c : Cursor) :
    c.remaining = Checked.ofRange (Text.dropBytes? c.source c.mark.offset) := by
  rw [remaining, c.view_eq, Text.dropBytes?_eq_seek]

/-- The character `n` characters ahead, found by counting characters. -/
def peekSlow (c : Cursor) (n : Nat) : Checked (Option Char) := c.remaining.map (·[n]?)

/-- The character `n` characters ahead. -/
def peek (c : Cursor) (n : Nat) : Checked (Option Char) :=
  match c.window? (n + 1) with
  | none => .ok none
  | some window =>
    if window.all isAscii then .ok (window[n]?.map fun byte => Char.ofNat byte.toNat)
    else c.peekSlow n

/-- The next character. -/
def current (c : Cursor) : Checked (Option Char) := c.peek 0

/-- Whether the character `n` characters ahead is `expected`. -/
def check (c : Cursor) (n : Nat) (expected : Char) : Checked Bool :=
  (c.peek n).map (· == some expected)

/-- Steps over one character, if there is one. -/
def advance (c : Cursor) : Checked (Option Char × Cursor) := do
  match ← c.current with
  | none => return (none, c)
  | some ch =>
    let mark ← c.mark.step ch
    return (some ch, c.moveTo mark)

/-- Whether the place is at the end or past it. -/
def isAtEnd (c : Cursor) : Bool := c.view.1.isEmpty

/-- What lies ahead: nothing at the end and past it. -/
def ahead (c : Cursor) : Checked Text := if c.isAtEnd then .ok [] else c.remaining

/-- Steps over a text that lies ahead. -/
def stepOver (c : Cursor) (t : Text) : Checked Cursor :=
  (c.mark.advance t).map c.moveTo

/-- Steps over `n` characters, or up to the end. -/
def advanceBy (c : Cursor) (n : Nat) : Checked Cursor :=
  if n = 0 then .ok c else c.ahead.bind fun t => c.stepOver (t.take n)

/-- Steps over characters as long as they are in a class, and counts them. -/
def eatWhile (c : Cursor) (p : Char → Bool) : Checked (Nat × Cursor) := do
  let eaten := (← c.ahead).takeWhile p
  return (eaten.length, ← c.stepOver eaten)

/-- Steps over the next character if it is `expected`. -/
def matchChar (c : Cursor) (expected : Char) : Checked (Bool × Cursor) := do
  if ← c.check 0 expected then
    let (_, c) ← c.advance
    return (true, c)
  else return (false, c)

/-- The source from the offset `start` up to the place. -/
def sliceFrom (c : Cursor) (start : Nat) : Checked Text :=
  Checked.ofRange (Text.slice? c.source start c.mark.offset)

/-- The cursor at another place. -/
def restore (c : Cursor) (mark : Mark) : Cursor := c.moveTo mark

end Cursor

end Lexis
