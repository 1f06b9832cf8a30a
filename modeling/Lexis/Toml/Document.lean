import Lexis.Toml.Scalar

/-!
# TOML documents

A document is a sequence of lines. A line holds a header, an assignment or nothing, and perhaps a
comment; arrays and strings in tripled quotes may run over several lines.

* `Read.value`: a value, with arrays and inline tables nested less than `maxNesting` deep.
* `Read.statement?`: one line.
* `read?`: the table of a document.
-/

namespace Lexis.Toml

namespace Read

/-- How deep arrays and inline tables are nested, and how many parts a key has: less than this. -/
def maxNesting : Nat := 80

/-! ## Space and comments -/

/-- Space inside a line. -/
def space : Reader Unit := do let _ ← Reader.takeWhile isSpace

/-- A line break. -/
def lineBreak : Reader Unit := Reader.expect ['\n'] <|> Reader.expect ['\r', '\n']

/-- A comment up to the end of its line. -/
def comment : Reader Unit := do
  Reader.expect ['#']
  let _ ← Reader.takeWhile isPlain

/-- The end of the text. -/
def textEnd : Reader Unit := fun t => if t.isEmpty then some ((), t) else none

/-- The end of a line, with the space and the comment in front of it. -/
def lineEnd : Reader Unit := do
  space
  let _ ← Reader.optional comment
  lineBreak <|> textEnd

/-- The space between the values of an array, over several lines, at most one piece for each
character of `bound`. -/
def gap : (bound : Text) → Reader Unit
  | [] => pure ()
  | _ :: bound => fun t =>
    match (do let _ ← Reader.takeWhile1 isSpace) t with
    | some (_, rest) => gap bound rest
    | none =>
      match (do let _ ← Reader.optional comment; lineBreak) t with
      | some (_, rest) => gap bound rest
      | none => some ((), t)

/-- The space between the values of an array. Each piece takes a character, so the text itself
bounds their number. -/
def spacing : Reader Unit := fun t => gap t t

/-! ## Keys -/

/-- A character of a key without quotes. -/
def isBare (c : Char) : Bool := c.isAlphanum || c = '_' || c = '-'

/-- One part of a key, with the space around it. -/
def keyPart : Reader Text := do
  space
  let part ← quoted <|> Reader.takeWhile1 isBare
  space
  return part

/-- The key with the given parts, if they are not too many. -/
def key? (parts : List Text) : Option Key :=
  if parts.length < maxNesting then parts.getLast?.map fun last => ⟨parts.dropLast, last⟩ else none

/-- A key: its parts with points between them. -/
def key : Reader Key := do ofOption (key? (← Reader.separatedBy (Reader.expect ['.']) keyPart))

/-! ## Values -/

/-- The values between the brackets of an array; a comma may follow the last. -/
def items (value : Reader Value) : Reader (List Value) := do
  let item : Reader Value := do
    spacing
    let item ← value
    spacing
    return item
  let comma := Reader.expect [',']
  let items? ← Reader.optional (Reader.separatedBy comma item)
  if items?.isSome then let _ ← Reader.accept [',']
  spacing
  return items?.getD []

/-- An assignment. -/
def assignment (value : Reader Value) : Reader (Key × Value) := do
  let key ← key
  Reader.expect ['=']
  space
  return (key, ← value)

/-- The assignments between the braces of an inline table. -/
def assignments (value : Reader Value) : Reader (List (Key × Value)) := do
  let item : Reader (Key × Value) := do
    let item ← assignment value
    space
    return item
  let items? ← Reader.optional (Reader.separatedBy (Reader.expect [',']) item)
  space
  return items?.getD []

/-- An array of values. -/
def array (value : Reader Value) : Reader Value := do
  Reader.expect ['[']
  let items ← items value
  Reader.expect [']']
  return .array items

/-- A table between braces. -/
def inlineTable (value : Reader Value) : Reader Value := do
  Reader.expect ['{']
  let assignments ← assignments value
  Reader.expect ['}']
  ofOption (Value.ofAssignments assignments)

/-- A value without parts. -/
def scalar : Reader Value := string <|> boolean <|> dateTime <|> number

/-- A value with arrays and inline tables nested at most `depth` deep. -/
def value : (depth : Nat) → Reader Value
  | 0 => scalar
  | depth + 1 => scalar <|> array (value depth) <|> inlineTable (value depth)

/-! ## Lines -/

/-- The header of a table or of one more table in an array. -/
def header : Reader Statement := do
  if ← Reader.accept ['[', '['] then
    let key ← key
    Reader.expect [']', ']']
    return .openItem key
  else
    Reader.expect ['[']
    let key ← key
    Reader.expect [']']
    return .openTable key

/-- A line with its statement, if it has one. -/
def line : Reader (Option Statement) := do
  space
  let assign : Reader Statement := do
    let (key, value) ← assignment (value (maxNesting - 1))
    return .assign key value
  let statement? ← Reader.optional (header <|> assign)
  lineEnd
  return statement?

/-- The statements of a text, at most one line of it for each character of `bound`. -/
def lines : (bound : Text) → Text → Option (List Statement)
  | _, [] => some []
  | [], _ :: _ => none
  | _ :: bound, c :: t => do
    let (statement?, rest) ← line (c :: t)
    let statements ← lines bound rest
    return statement?.toList ++ statements

/-- The statements of a document. A byte order mark may stand in front, and each line takes a
character, so the text itself bounds the number of lines. -/
def statements (t : Text) : Option (List Statement) :=
  let t := match t with
    | '\uFEFF' :: t => t
    | t => t
  lines t t

end Read

/-- The table that a document describes, if it is one. -/
def read? (t : Text) : Option Entries := (Read.statements t).bind Entries.ofStatements

end Lexis.Toml
