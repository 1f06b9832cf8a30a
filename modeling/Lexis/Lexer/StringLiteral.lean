import Lexis.Lexer.Reading

/-!
# String literals

A string literal has an optional prefix `r`, `u` or `ur`, an opening delimiter of one quote or
three, a body and the same delimiter again. In the body a backslash takes the next character with
it, whatever the prefix. A literal with one quote ends before a line feed, one with three may
contain it.

* `Rule.lineBody`, `Rule.tripleBody`: how far the body and its closing delimiter reach.
* `Rule.stringLiteral`: the rule, given the length of the prefix.
* `Rule.whole_stringLiteral`, `Rule.length_left_stringLiteral_le`: it loses nothing and takes at
  least one character.
-/

namespace Lexis.Rule

/-- How the body of a string literal ends. -/
inductive Ending where
  /-- With the closing delimiter. -/
  | closed
  /-- With a backslash at the end of the input. -/
  | escape
  /-- At a line feed or the end of the input. -/
  | unclosed
  deriving DecidableEq, Repr

/-- How far the body of a string literal reaches, its closing delimiter included. -/
structure Body where
  /-- The number of characters. -/
  length : Nat
  /-- How it ends. -/
  ending : Ending
  deriving DecidableEq, Repr

/-- The body of a literal on one line, of which `n` characters are counted already. -/
def lineBody (quote : Char) (n : Nat) : Text → Body
  | [] => ⟨n, .unclosed⟩
  | ['\\'] => ⟨n + 1, .escape⟩
  | '\\' :: _ :: t => lineBody quote (n + 2) t
  | c :: t =>
    if c = '\n' then ⟨n, .unclosed⟩
    else if c = quote then ⟨n + 1, .closed⟩
    else lineBody quote (n + 1) t

/-- Whether a text starts with three times the quote. -/
def startsTriple (quote : Char) (t : Text) : Bool := [quote, quote, quote].isPrefixOf t

/-- The body of a literal between triple quotes, of which `n` characters are counted already. -/
def tripleBody (quote : Char) (n : Nat) : Text → Body
  | [] => ⟨n, .unclosed⟩
  | ['\\'] => ⟨n + 1, .escape⟩
  | '\\' :: _ :: t => tripleBody quote (n + 2) t
  | c :: t =>
    if startsTriple quote (c :: t) then ⟨n + 3, .closed⟩ else tripleBody quote (n + 1) t

/-- The length of a prefix that a quote follows. -/
def literalPrefix? : Text → Option Nat
  | 'u' :: 'r' :: q :: _ => if isQuote q then some 2 else none
  | 'u' :: q :: _ => if isQuote q then some 1 else none
  | 'r' :: q :: _ => if isQuote q then some 1 else none
  | _ => none

/-- The quote that opens a literal. -/
def openingQuote (r : Reading) : Char := if r.sees (· = '"') then '"' else '\''

/-- What an ending makes of the text read. -/
def closeLiteral (form : QuoteForm) (r : Reading) : Ending → Scan
  | .closed => .accept (.literal .string) true r
  | .escape => .reject .unterminatedEscape r
  | .unclosed => .reject (.unterminatedString form) r

/-- The rule for string literals with a prefix of `n` characters. -/
def stringLiteral (n : Nat) (t : Text) : Scan :=
  let front := (Reading.start t).skip n
  let quote := openingQuote front
  if startsTriple quote front.left then
    let opened := front.skip 3
    let body := tripleBody quote 0 opened.left
    closeLiteral (.ofQuote quote true) (opened.skip body.length) body.ending
  else
    let opened := front.skip 1
    let body := lineBody quote 0 opened.left
    closeLiteral (.ofQuote quote false) (opened.skip body.length) body.ending

@[simp] theorem reading_closeLiteral (form : QuoteForm) (r : Reading) (e : Ending) :
    (closeLiteral form r e).reading = r := by
  cases e <;> rfl

theorem whole_stringLiteral (n : Nat) (t : Text) : (stringLiteral n t).reading.whole = t := by
  unfold stringLiteral
  dsimp only
  split <;> simp

theorem length_left_stringLiteral_le (n : Nat) (c : Char) (t : Text) :
    (stringLiteral n (c :: t)).reading.left.length ≤ t.length := by
  unfold stringLiteral
  dsimp only
  split <;>
  · simp only [reading_closeLiteral, Reading.skip, Reading.start, List.length_drop,
      List.length_cons]
    omega

end Lexis.Rule
