/-!
# Keywords

The reserved words of Python 2. A keyword is spelled in one way, and its name in listings is that
spelling in capitals.

* `Keyword.all`: the keywords in the order of their grammar numbers.
* `Keyword.ofText?`: the keyword that a text spells.
-/

namespace Lexis

/-- A reserved word. -/
inductive Keyword where
  | or_ | and_ | not_ | def_ | print_ | del_ | pass_ | break_ | continue_ | return_ | raise_
  | import_ | from_ | as_ | global_ | exec_ | in_ | assert_ | if_ | else_ | elif_ | while_ | for_
  | try_ | finally_ | with_ | except_ | is_ | lambda_ | class_ | yield_
  deriving DecidableEq, Repr

namespace Keyword

/-- The spelling. -/
def spelling : Keyword → String
  | .or_ => "or"
  | .and_ => "and"
  | .not_ => "not"
  | .def_ => "def"
  | .print_ => "print"
  | .del_ => "del"
  | .pass_ => "pass"
  | .break_ => "break"
  | .continue_ => "continue"
  | .return_ => "return"
  | .raise_ => "raise"
  | .import_ => "import"
  | .from_ => "from"
  | .as_ => "as"
  | .global_ => "global"
  | .exec_ => "exec"
  | .in_ => "in"
  | .assert_ => "assert"
  | .if_ => "if"
  | .else_ => "else"
  | .elif_ => "elif"
  | .while_ => "while"
  | .for_ => "for"
  | .try_ => "try"
  | .finally_ => "finally"
  | .with_ => "with"
  | .except_ => "except"
  | .is_ => "is"
  | .lambda_ => "lambda"
  | .class_ => "class"
  | .yield_ => "yield"

/-- The name in listings: the spelling in capitals. -/
def name (k : Keyword) : String := String.ofList (k.spelling.toList.map Char.toUpper)

/-- The number of the keyword in the grammar. -/
def number : Keyword → Nat
  | .or_ => 130
  | .and_ => 131
  | .not_ => 132
  | .def_ => 169
  | .print_ => 170
  | .del_ => 171
  | .pass_ => 172
  | .break_ => 173
  | .continue_ => 174
  | .return_ => 175
  | .raise_ => 176
  | .import_ => 177
  | .from_ => 178
  | .as_ => 179
  | .global_ => 180
  | .exec_ => 181
  | .in_ => 182
  | .assert_ => 183
  | .if_ => 184
  | .else_ => 185
  | .elif_ => 186
  | .while_ => 187
  | .for_ => 188
  | .try_ => 189
  | .finally_ => 190
  | .with_ => 191
  | .except_ => 192
  | .is_ => 193
  | .lambda_ => 194
  | .class_ => 195
  | .yield_ => 196

/-- The keywords in the order of their numbers. -/
def all : List Keyword :=
  [.or_, .and_, .not_, .def_, .print_, .del_, .pass_, .break_, .continue_, .return_, .raise_,
   .import_, .from_, .as_, .global_, .exec_, .in_, .assert_, .if_, .else_, .elif_, .while_, .for_,
   .try_, .finally_, .with_, .except_, .is_, .lambda_, .class_, .yield_]

/-- The keyword that is spelled by exactly this text. -/
def ofText? (t : List Char) : Option Keyword := all.find? fun k => k.spelling.toList == t

end Keyword

end Lexis
