import Lexis.Diagnostic.Basic
import Lexis.Source.File

/-!
# Lexical errors

A lexical error is local to one attempt at a token. Its span starts where the attempt began and
ends where it was given up, so a caret snippet underlines the text at fault.

* `Cause`: what went wrong.
* `LexError.message`: the error in one line, with its place.
* `LexError.toDiagnostic`, `LexError.toDiagnosticIn`: the error as a diagnostic, without and with
  a snippet of its source.
-/

namespace Lexis

/-- How a string literal is quoted. -/
inductive QuoteForm where
  | single | double | tripleSingle | tripleDouble
  deriving DecidableEq, Repr

namespace QuoteForm

/-- The form with a given quote, single or tripled. -/
def ofQuote (quote : Char) (triple : Bool) : QuoteForm :=
  match quote == '"', triple with
  | false, false => .single
  | true, false => .double
  | false, true => .tripleSingle
  | true, true => .tripleDouble

/-- The closing delimiter. -/
def delimiter : QuoteForm → String
  | .single => "'"
  | .double => "\""
  | .tripleSingle => "'''"
  | .tripleDouble => "\"\"\""

/-- Whether the literal may run over line ends. -/
def isTriple : QuoteForm → Bool
  | .single | .double => false
  | .tripleSingle | .tripleDouble => true

/-- The form in words. -/
def display : QuoteForm → String
  | .single => "single-quoted"
  | .double => "double-quoted"
  | .tripleSingle => "triple-single-quoted"
  | .tripleDouble => "triple-double-quoted"

/-- The form, as it stands in the report of a failure. -/
def describe : QuoteForm → String
  | .single => "Single"
  | .double => "Double"
  | .tripleSingle => "TripleSingle"
  | .tripleDouble => "TripleDouble"

end QuoteForm

/-- What is wrong with a number. -/
inductive NumberIssue where
  /-- The hexadecimal marker without a digit behind it. -/
  | missingHexDigits
  /-- The exponent marker without a digit behind it. -/
  | missingExponentDigits
  /-- The suffix of long integers behind a float. -/
  | longSuffixOnFloat
  deriving DecidableEq, Repr

namespace NumberIssue

/-- The issue in words. -/
def display : NumberIssue → String
  | .missingHexDigits => "hexadecimal literal has no digits"
  | .missingExponentDigits => "exponent has no digits"
  | .longSuffixOnFloat => "long suffix is not allowed on a float"

/-- The issue, as it stands in the report of a failure. -/
def describe : NumberIssue → String
  | .missingHexDigits => "MissingHexDigits"
  | .missingExponentDigits => "MissingExponentDigits"
  | .longSuffixOnFloat => "LongSuffixOnFloat"

end NumberIssue

/-- Why an attempt at a token failed. -/
inductive Cause where
  /-- A string met a line feed or the end of the input before its closing delimiter. -/
  | unterminatedString (form : QuoteForm)
  /-- A backslash is the last character of the input. -/
  | unterminatedEscape
  /-- A number has a marker with nothing valid behind it. -/
  | malformedNumber (issue : NumberIssue)
  /-- No rule takes the character. -/
  | unrecognized (char : Char)
  deriving DecidableEq, Repr

namespace Cause

/-- The code of the diagnostic. -/
def code : Cause → DiagnosticCode
  | .unterminatedString _ => .unterminatedString
  | .unterminatedEscape => .unterminatedEscape
  | .malformedNumber _ => .invalidNumber
  | .unrecognized _ => .unexpectedCharacter

/-- The cause in one line. -/
def headline : Cause → String
  | .unterminatedString form => "unterminated " ++ form.display ++ " string"
  | .unterminatedEscape => "backslash at end of input"
  | .malformedNumber issue => "malformed numeric literal: " ++ issue.display
  | .unrecognized c => "unrecognized character " ++ Quoted.displayChar c

/-- Advice on how to mend the source. -/
def helps : Cause → List String
  | .unterminatedString form =>
    let advice := "close the string with `" ++ form.delimiter ++ "`"
    [if form.isTriple then advice else advice ++ " before the end of the line"]
  | .malformedNumber .longSuffixOnFloat => ["only integers take an `L` suffix"]
  | _ => []

end Cause

/-- A failed attempt at a token. -/
structure LexError where
  /-- Why it failed. -/
  cause : Cause
  /-- The text read before it was given up. -/
  span : Span
  deriving DecidableEq, Repr

namespace LexError

/-- The error in one line, with its place. -/
def message (e : LexError) : String :=
  let place := e.span.display
  match e.cause with
  | .unterminatedString form => "unterminated " ++ form.display ++ " string starting at " ++ place
  | .unterminatedEscape => "backslash at end of input at " ++ place
  | .malformedNumber issue => "malformed numeric literal at " ++ place ++ ": " ++ issue.display
  | .unrecognized c => "unrecognized character " ++ Quoted.displayChar c ++ " at " ++ place

/-- The error as a diagnostic. -/
def toDiagnostic (e : LexError) : Diagnostic where
  level := .error
  message := e.cause.headline
  span := e.span
  code := some e.cause.code
  helps := e.cause.helps

/-- The error as a diagnostic with a snippet of its source. -/
def toDiagnosticIn (e : LexError) (file : SourceFile) : Diagnostic :=
  e.toDiagnostic.addSnippet? (file.snippet? e.span)

/-- The error, as it stands in the report of a failure. -/
def describe (e : LexError) : String :=
  let span := "span: " ++ e.span.describe ++ " \x7d"
  match e.cause with
  | .unterminatedString form =>
    "UnterminatedString \x7b form: " ++ form.describe ++ ", " ++ span
  | .unterminatedEscape => "UnterminatedEscape \x7b " ++ span
  | .malformedNumber issue =>
    "MalformedNumericLiteral \x7b issue: " ++ issue.describe ++ ", " ++ span
  | .unrecognized c =>
    "UnrecognizedCharacter \x7b ch: " ++ Quoted.displayChar c ++ ", " ++ span

end LexError

end Lexis
