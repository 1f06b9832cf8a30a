import Lexis.Text.Basic

/-!
# Readers

A reader takes a value off the front of a text and gives the rest, or fails. A failed reader has
taken nothing, so `<|>` tries its second reader on the same text.

* `Reader.expect`, `Reader.takeWhile`: take a given text, and the characters of a class.
* `Reader.separatedBy`: values with a separator between them.
* `Reader.expect_append`: a text is taken off in front of any rest.
-/

namespace Lexis.Toml

/-- Takes an `α` off the front of a text. -/
abbrev Reader (α : Type) : Type := StateT Text Option α

namespace Reader

/-- What is left of a text behind `front`, if the text starts with it. -/
def strip? : (front : Text) → Text → Option Text
  | [], t => some t
  | _ :: _, [] => none
  | c :: front, d :: t => if c = d then strip? front t else none

theorem strip?_append (front t : Text) : strip? front (front ++ t) = some t := by
  induction front with
  | nil => rfl
  | cons c front ih => simp [strip?, ih]

/-- Takes a given text. -/
def expect (front : Text) : Reader Unit := fun t => (strip? front t).map ((), ·)

theorem expect_append (front t : Text) : expect front (front ++ t) = some ((), t) := by
  simp [expect, strip?_append]

/-- Takes a given text if it is there, and tells whether it was. -/
def accept (front : Text) : Reader Bool := fun t =>
  match strip? front t with
  | some rest => some (true, rest)
  | none => some (false, t)

/-- Takes the characters of a class. -/
def takeWhile (p : Char → Bool) : Reader Text := fun t => some (t.takeWhile p, t.dropWhile p)

/-- Takes at least one character of a class. -/
def takeWhile1 (p : Char → Bool) : Reader Text := fun t =>
  if t.head?.any p then takeWhile p t else none

/-- Takes `n` characters of a class. -/
def take (n : Nat) (p : Char → Bool) : Reader Text := fun t =>
  let front := t.take n
  if front.length = n && front.all p then some (front, t.drop n) else none

/-- What a reader takes, or nothing where it fails. -/
def optional {α : Type} (r : Reader α) : Reader (Option α) := fun t =>
  match r t with
  | some (a, rest) => some (some a, rest)
  | none => some (none, t)

/-- The value of a reader if it has a property. -/
def filter {α : Type} (r : Reader α) (p : α → Bool) : Reader α := fun t =>
  (r t).bind fun (a, rest) => if p a then some (a, rest) else none

/-- Values of `item`, each behind a `separator`, as many as there are, but at most one for each
character of `bound`. -/
def behind {α : Type} (separator : Reader Unit) (item : Reader α) :
    (bound : Text) → Reader (List α)
  | [] => pure []
  | _ :: bound => fun t =>
    match (do separator; item) t with
    | some (a, rest) => (behind separator item bound rest).map fun (as, rest) => (a :: as, rest)
    | none => some ([], t)

/-- One or more values with a separator between them. Each separator takes a character, so the text
itself bounds their number. -/
def separatedBy {α : Type} (separator : Reader Unit) (item : Reader α) : Reader (List α) := fun t =>
  (do return (← item) :: (← behind separator item t)) t

end Reader

end Lexis.Toml
