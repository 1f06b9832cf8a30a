import Lexis.Text.Basic
import Lexis.Text.Printable

/-!
# Quoted texts

Two ways of writing a text between quotes, in which the text can be told apart from what stands
around it.

* `Quoted.display`, `Quoted.displayChar`: for a reader. Line breaks, tabs, the null character, the
  backslash and the quote are written with a backslash, and a character that is not printable by
  its code point in hexadecimal.
* `Quoted.json`: a string of the JSON format, where only the quote, the backslash and the controls
  below the space are escaped.
-/

namespace Lexis.Quoted

/-- The code point of `c` in hexadecimal, between braces and after `\u`. -/
def codePoint (c : Char) : Text :=
  '\\' :: 'u' :: '{' :: (Nat.toDigits 16 c.toNat ++ ['}'])

/-- How `c` is written between two `quote`s. -/
def escape (quote c : Char) : Text :=
  if c = '\x00' then ['\\', '0']
  else if c = '\t' then ['\\', 't']
  else if c = '\r' then ['\\', 'r']
  else if c = '\n' then ['\\', 'n']
  else if c = '\\' ∨ c = quote then ['\\', c]
  else if Text.isPrintable c then [c]
  else codePoint c

/-- A text between double quotes. -/
def display (t : Text) : String :=
  String.ofList ('"' :: (t.flatMap (escape '"') ++ ['"']))

/-- A character between single quotes. -/
def displayChar (c : Char) : String :=
  String.ofList ('\'' :: (escape '\'' c ++ ['\'']))

/-- An optional character, as it stands in an event. -/
def displayChar? : Option Char → String
  | none => "None"
  | some c => "Some(" ++ displayChar c ++ ")"

/-! ## JSON strings -/

/-- `n` in hexadecimal with at least four digits. -/
def hex4 (n : Nat) : Text :=
  let digits := Nat.toDigits 16 n
  List.replicate (4 - digits.length) '0' ++ digits

/-- How `c` is written in a JSON string. -/
def escapeJson (c : Char) : Text :=
  if c = '"' ∨ c = '\\' then ['\\', c]
  else if c = '\x08' then ['\\', 'b']
  else if c = '\x0c' then ['\\', 'f']
  else if c = '\n' then ['\\', 'n']
  else if c = '\r' then ['\\', 'r']
  else if c = '\t' then ['\\', 't']
  else if c.toNat < 0x20 then '\\' :: 'u' :: hex4 c.toNat
  else [c]

/-- A text as a JSON string. -/
def json (t : Text) : String :=
  String.ofList ('"' :: (t.flatMap escapeJson ++ ['"']))

end Lexis.Quoted
