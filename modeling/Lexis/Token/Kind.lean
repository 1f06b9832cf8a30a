import Lexis.Token.Keyword
import Lexis.Token.Symbol

/-!
# Kinds of tokens

The closed vocabulary of the lexer: the end of the input, names, keywords, symbols, literals and
layout. Each kind has a name, used in listings, and a number, the one the grammar of the parser
gives it.

* `Kind.all`: the kinds in the order of their numbers.
* `Kind.ofId?`: the kind with a number.
-/

namespace Lexis

/-- The classes of literals. -/
inductive Literal where
  | int | longInt | float | complex | string
  deriving DecidableEq, Repr

/-- What gives a text its lines and the space on them. -/
inductive Layout where
  /-- A run of line breaks. -/
  | newline
  /-- A backslash, the line break after it and the space that starts the next line. -/
  | continuation
  /-- Space inside a line. -/
  | blank
  /-- Space at the start of a line. -/
  | indentation
  /-- A comment. -/
  | comment
  deriving DecidableEq, Repr

/-- The kind of a token. -/
inductive Kind where
  /-- The end of the input. -/
  | eof
  /-- An identifier that is no keyword. -/
  | name
  | keyword (word : Keyword)
  | symbol (symbol : Symbol)
  | literal (literal : Literal)
  | layout (layout : Layout)
  deriving DecidableEq, Repr

namespace Kind

/-- The name in listings. -/
def display : Kind → String
  | .eof => "EOF"
  | .name => "NAME"
  | .keyword k => k.name
  | .symbol s => s.name
  | .literal .int => "INT"
  | .literal .longInt => "LONGINT"
  | .literal .float => "FLOAT"
  | .literal .complex => "COMPLEX"
  | .literal .string => "STRING"
  | .layout .newline => "NEWLINE"
  | .layout .continuation => "CONTINUED_LINE"
  | .layout .blank => "WS"
  | .layout .indentation => "LEADING_WS"
  | .layout .comment => "COMMENT"

/-- The number in the grammar. -/
def id : Kind → Int
  | .eof => -1
  | .name => 109
  | .keyword k => k.number
  | .symbol s => s.number
  | .literal .int => 155
  | .literal .longInt => 156
  | .literal .float => 157
  | .literal .complex => 158
  | .literal .string => 159
  | .layout .newline => 105
  | .layout .continuation => 165
  | .layout .blank => 166
  | .layout .indentation => 167
  | .layout .comment => 168

/-- The kinds in the order of their numbers. -/
def all : List Kind :=
  [.eof, .layout .newline, .symbol .atSign, .symbol .leftParen, .symbol .rightParen, .name,
   .symbol .dot, .symbol .colon, .symbol .comma, .symbol .star, .symbol .doubleStar,
   .symbol .assign, .symbol .semicolon, .symbol .plusEqual, .symbol .minusEqual, .symbol .starEqual,
   .symbol .slashEqual, .symbol .percentEqual, .symbol .ampersandEqual, .symbol .barEqual,
   .symbol .caretEqual, .symbol .leftShiftEqual, .symbol .rightShiftEqual, .symbol .doubleStarEqual,
   .symbol .doubleSlashEqual, .symbol .rightShift, .keyword .or_, .keyword .and_, .keyword .not_,
   .symbol .less, .symbol .greater, .symbol .equal, .symbol .greaterEqual, .symbol .lessEqual,
   .symbol .lessGreater, .symbol .notEqual, .symbol .bar, .symbol .caret, .symbol .ampersand,
   .symbol .leftShift, .symbol .plus, .symbol .minus, .symbol .slash, .symbol .percent,
   .symbol .doubleSlash, .symbol .tilde, .symbol .leftBracket, .symbol .rightBracket,
   .symbol .leftBrace, .symbol .rightBrace, .symbol .backquote, .literal .int, .literal .longInt,
   .literal .float, .literal .complex, .literal .string, .layout .continuation, .layout .blank,
   .layout .indentation, .layout .comment, .keyword .def_, .keyword .print_, .keyword .del_,
   .keyword .pass_, .keyword .break_, .keyword .continue_, .keyword .return_, .keyword .raise_,
   .keyword .import_, .keyword .from_, .keyword .as_, .keyword .global_, .keyword .exec_,
   .keyword .in_, .keyword .assert_, .keyword .if_, .keyword .else_, .keyword .elif_,
   .keyword .while_, .keyword .for_, .keyword .try_, .keyword .finally_, .keyword .with_,
   .keyword .except_, .keyword .is_, .keyword .lambda_, .keyword .class_, .keyword .yield_]

/-- The kind with a number. -/
def ofId? (id : Int) : Option Kind := all.find? fun k => k.id == id

/-! ## Classes of kinds -/

/-- Whether the kind is a keyword. -/
def isKeyword : Kind → Bool
  | .keyword _ => true
  | _ => false

/-- Whether the kind is a literal. -/
def isLiteral : Kind → Bool
  | .literal _ => true
  | _ => false

/-- Whether the kind is layout. -/
def isLayout : Kind → Bool
  | .layout _ => true
  | _ => false

/-- Whether the kind is a symbol. -/
def isSymbol : Kind → Bool
  | .symbol _ => true
  | _ => false

/-- Whether the kind opens a bracket. -/
def opens : Kind → Bool
  | .symbol s => s.opens
  | _ => false

/-- Whether the kind closes a bracket. -/
def closes : Kind → Bool
  | .symbol s => s.closes
  | _ => false

theorem mem_all (k : Kind) : k ∈ all := by
  cases k with
  | eof => decide
  | name => decide
  | keyword k => cases k <;> decide
  | symbol s => cases s <;> decide
  | literal l => cases l <;> decide
  | layout l => cases l <;> decide

end Kind

end Lexis
