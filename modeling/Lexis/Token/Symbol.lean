/-!
# Symbols

Operators, delimiters and brackets. A symbol is spelled in one way, by one to three characters,
and some spellings start others: `*` starts `**` and `**=`.

* `Symbol.longestFirst`: the symbols with longer spellings in front of shorter ones.
* `Symbol.read?`: the first of these whose spelling starts a text, so the longest that does.
-/

namespace Lexis

/-- An operator, delimiter or bracket. -/
inductive Symbol where
  | atSign | leftParen | rightParen | dot | colon | comma | star | doubleStar | assign
  | semicolon | plusEqual | minusEqual | starEqual | slashEqual | percentEqual | ampersandEqual
  | barEqual | caretEqual | leftShiftEqual | rightShiftEqual | doubleStarEqual | doubleSlashEqual
  | rightShift | less | greater | equal | greaterEqual | lessEqual | lessGreater | notEqual | bar
  | caret | ampersand | leftShift | plus | minus | slash | percent | doubleSlash | tilde
  | leftBracket | rightBracket | leftBrace | rightBrace | backquote
  deriving DecidableEq, Repr

namespace Symbol

/-- The spelling. -/
def spelling : Symbol → String
  | .atSign => "@"
  | .leftParen => "("
  | .rightParen => ")"
  | .dot => "."
  | .colon => ":"
  | .comma => ","
  | .star => "*"
  | .doubleStar => "**"
  | .assign => "="
  | .semicolon => ";"
  | .plusEqual => "+="
  | .minusEqual => "-="
  | .starEqual => "*="
  | .slashEqual => "/="
  | .percentEqual => "%="
  | .ampersandEqual => "&="
  | .barEqual => "|="
  | .caretEqual => "^="
  | .leftShiftEqual => "<<="
  | .rightShiftEqual => ">>="
  | .doubleStarEqual => "**="
  | .doubleSlashEqual => "//="
  | .rightShift => ">>"
  | .less => "<"
  | .greater => ">"
  | .equal => "=="
  | .greaterEqual => ">="
  | .lessEqual => "<="
  | .lessGreater => "<>"
  | .notEqual => "!="
  | .bar => "|"
  | .caret => "^"
  | .ampersand => "&"
  | .leftShift => "<<"
  | .plus => "+"
  | .minus => "-"
  | .slash => "/"
  | .percent => "%"
  | .doubleSlash => "//"
  | .tilde => "~"
  | .leftBracket => "["
  | .rightBracket => "]"
  | .leftBrace => "\x7b"
  | .rightBrace => "\x7d"
  | .backquote => "`"

/-- The name in listings. -/
def name : Symbol → String
  | .atSign => "AT"
  | .leftParen => "LPAREN"
  | .rightParen => "RPAREN"
  | .dot => "DOT"
  | .colon => "COLON"
  | .comma => "COMMA"
  | .star => "STAR"
  | .doubleStar => "DOUBLESTAR"
  | .assign => "ASSIGN"
  | .semicolon => "SEMI"
  | .plusEqual => "PLUSEQUAL"
  | .minusEqual => "MINUSEQUAL"
  | .starEqual => "STAREQUAL"
  | .slashEqual => "SLASHEQUAL"
  | .percentEqual => "PERCENTEQUAL"
  | .ampersandEqual => "AMPEREQUAL"
  | .barEqual => "VBAREQUAL"
  | .caretEqual => "CIRCUMFLEXEQUAL"
  | .leftShiftEqual => "LEFTSHIFTEQUAL"
  | .rightShiftEqual => "RIGHTSHIFTEQUAL"
  | .doubleStarEqual => "DOUBLESTAREQUAL"
  | .doubleSlashEqual => "DOUBLESLASHEQUAL"
  | .rightShift => "RIGHTSHIFT"
  | .less => "LESS"
  | .greater => "GREATER"
  | .equal => "EQUAL"
  | .greaterEqual => "GREATEREQUAL"
  | .lessEqual => "LESSEQUAL"
  | .lessGreater => "ALT_NOTEQUAL"
  | .notEqual => "NOTEQUAL"
  | .bar => "VBAR"
  | .caret => "CIRCUMFLEX"
  | .ampersand => "AMPER"
  | .leftShift => "LEFTSHIFT"
  | .plus => "PLUS"
  | .minus => "MINUS"
  | .slash => "SLASH"
  | .percent => "PERCENT"
  | .doubleSlash => "DOUBLESLASH"
  | .tilde => "TILDE"
  | .leftBracket => "LBRACK"
  | .rightBracket => "RBRACK"
  | .leftBrace => "LCURLY"
  | .rightBrace => "RCURLY"
  | .backquote => "BACKQUOTE"

/-- The number of the symbol in the grammar. -/
def number : Symbol → Nat
  | .atSign => 106
  | .leftParen => 107
  | .rightParen => 108
  | .dot => 110
  | .colon => 111
  | .comma => 112
  | .star => 113
  | .doubleStar => 114
  | .assign => 115
  | .semicolon => 116
  | .plusEqual => 117
  | .minusEqual => 118
  | .starEqual => 119
  | .slashEqual => 120
  | .percentEqual => 121
  | .ampersandEqual => 122
  | .barEqual => 123
  | .caretEqual => 124
  | .leftShiftEqual => 125
  | .rightShiftEqual => 126
  | .doubleStarEqual => 127
  | .doubleSlashEqual => 128
  | .rightShift => 129
  | .less => 133
  | .greater => 134
  | .equal => 135
  | .greaterEqual => 136
  | .lessEqual => 137
  | .lessGreater => 138
  | .notEqual => 139
  | .bar => 140
  | .caret => 141
  | .ampersand => 142
  | .leftShift => 143
  | .plus => 144
  | .minus => 145
  | .slash => 146
  | .percent => 147
  | .doubleSlash => 148
  | .tilde => 149
  | .leftBracket => 150
  | .rightBracket => 151
  | .leftBrace => 152
  | .rightBrace => 153
  | .backquote => 154

/-- Whether the symbol opens a bracket. -/
def opens : Symbol → Bool
  | .leftParen | .leftBracket | .leftBrace => true
  | _ => false

/-- Whether the symbol closes a bracket. -/
def closes : Symbol → Bool
  | .rightParen | .rightBracket | .rightBrace => true
  | _ => false

/-- The symbols, those with longer spellings first. -/
def longestFirst : List Symbol :=
  [.leftShiftEqual, .rightShiftEqual, .doubleStarEqual, .doubleSlashEqual, .doubleStar,
   .doubleSlash, .leftShift, .rightShift, .plusEqual, .minusEqual, .starEqual, .slashEqual,
   .percentEqual, .ampersandEqual, .barEqual, .caretEqual, .equal, .greaterEqual, .lessGreater,
   .lessEqual, .notEqual, .atSign, .leftParen, .rightParen, .dot, .colon, .comma, .star, .assign,
   .semicolon, .less, .greater, .bar, .caret, .ampersand, .plus, .minus, .slash, .percent, .tilde,
   .leftBracket, .rightBracket, .leftBrace, .rightBrace, .backquote]

/-- The symbol with the longest spelling that starts a text. -/
def read? (t : List Char) : Option Symbol :=
  longestFirst.find? fun s => s.spelling.toList.isPrefixOf t

theorem mem_longestFirst (s : Symbol) : s ∈ longestFirst := by cases s <;> decide

theorem spelling_ne_nil (s : Symbol) : s.spelling.toList ≠ [] := by cases s <;> decide

theorem spelling_isPrefix_of_read? {t : List Char} {s : Symbol} (h : read? t = some s) :
    s.spelling.toList <+: t := by
  simpa using List.find?_some h

end Symbol

end Lexis
