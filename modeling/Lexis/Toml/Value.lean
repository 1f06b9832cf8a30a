import Lexis.Text.Basic

/-!
# TOML values and tables

A TOML document is a table: an ordered list of keys with values. Tables come about in four ways,
and how a table came about decides who may add to it: a table between braces is complete, one with
a header of its own takes no dotted keys from outside, and one that was only passed through may
still be given a header or further dotted keys.

* `Entries.alter`: changes the value of one key, or adds the key.
* `Entries.assign`: adds a value under a dotted key.
* `Entries.openTable`, `Entries.openItem`: the effect of the headers `[key]` and `[[key]]`.
-/

namespace Lexis.Toml

/-- How a table came about. -/
inductive Origin where
  /-- Written between braces. -/
  | inline
  /-- Stated by a header. -/
  | header
  /-- Passed through by a longer header. -/
  | implied
  /-- Passed through by a dotted key. -/
  | dotted
  deriving DecidableEq, Repr

/-- A TOML value. Of floats and date-times only the type is kept. -/
inductive Value where
  | string (text : Text)
  | integer (value : Int)
  | float
  | boolean (value : Bool)
  | dateTime
  | array (items : List Value)
  | table (origin : Origin) (entries : List (Text × Value))
  /-- An array of tables that were stated by headers: the last of them, and those in front of it
  from the last to the first. -/
  | tables (last : List (Text × Value)) (earlier : List (List (Text × Value)))
  deriving Repr

/-- The keys of a table with their values, in the order in which they were added. -/
abbrev Entries : Type := List (Text × Value)

namespace Entries

/-- The value of a key. -/
def get? (entries : Entries) (key : Text) : Option Value := entries.lookup key

/-- Changes the value of a key, or adds the key at the end. The change `f` may fail. -/
def alter (key : Text) (f : Option Value → Option Value) : Entries → Option Entries
  | [] => (f none).map fun value => [(key, value)]
  | (k, value) :: rest =>
    if k = key then (f (some value)).map fun value => (k, value) :: rest
    else (alter key f rest).map ((k, value) :: ·)

end Entries

/-- A change of a table, which may fail. -/
abbrev Change : Type := Origin → Entries → Option Entries

namespace Value

/-- Changes the table that a value stands for; an array of tables stands for its last. A complete
table and a value that is no table cannot be changed. -/
def change (f : Change) : Value → Option Value
  | .table .inline _ => none
  | .table origin entries => (f origin entries).map (.table origin)
  | .tables last earlier => (f .header last).map fun last => .tables last earlier
  | _ => none

/-- Whether the value is a table with a header of its own. -/
def isStated : Value → Bool
  | .table .header _ => true
  | _ => false

end Value

namespace Change

/-- The change `f` of the table that a path leads to by headers. Tables that are missing on the way
are implied. -/
def underHeader (f : Change) : List Text → Change
  | [], origin, entries => f origin entries
  | key :: path, _, entries =>
    entries.alter key fun child? =>
      (child?.getD (.table .implied [])).change (underHeader f path)

/-- The change `f` of the table that a dotted key leads to. A table with a header of its own is not
entered. -/
def underDots (f : Change) : List Text → Change
  | [], origin, entries => f origin entries
  | key :: path, _, entries =>
    entries.alter key fun child? =>
      let child := child?.getD (.table .dotted [])
      if child.isStated then none else child.change (underDots f path)

/-- Adds a key that is not there yet. -/
def add (key : Text) (value : Value) : Change := fun _ entries =>
  entries.alter key fun
    | none => some value
    | some _ => none

end Change

/-- A key of one or more parts: the path to a table and the last part. -/
structure Key where
  /-- The parts in front of the last. -/
  path : List Text
  /-- The last part. -/
  last : Text
  deriving DecidableEq, Repr

namespace Entries

/-- Adds a value under a dotted key. The last table on the way has to be one that was made by
dotted keys, unless the key has a single part. -/
def assign (key : Key) (value : Value) : Change :=
  Change.underDots
    (fun origin entries =>
      if decide (origin = .dotted) = !key.path.isEmpty then Change.add key.last value origin entries
      else none)
    key.path

/-- The effect of the header `[key]`: a new table, or one that was implied. -/
def openTable (key : Key) : Change :=
  Change.underHeader
    (fun _ entries => entries.alter key.last fun
      | none => some (.table .header [])
      | some (.table .implied entries) => some (.table .header entries)
      | some _ => none)
    key.path

/-- The effect of the header `[[key]]`: one more table in an array of tables. -/
def openItem (key : Key) : Change :=
  Change.underHeader
    (fun _ entries => entries.alter key.last fun
      | none => some (.tables [] [])
      | some (.tables last earlier) => some (.tables [] (last :: earlier))
      | some _ => none)
    key.path

end Entries

/-- The table between braces with the given assignments. -/
def Value.ofAssignments (assignments : List (Key × Value)) : Option Value :=
  (assignments.foldlM (fun entries (key, value) => Entries.assign key value .header entries)
    ([] : Entries)).map (.table .inline)

/-- One statement of a document. -/
inductive Statement where
  /-- A value for a key of the current table. -/
  | assign (key : Key) (value : Value)
  /-- A header that makes its table current. -/
  | openTable (key : Key)
  /-- A header that adds a table to an array and makes it current. -/
  | openItem (key : Key)
  deriving Repr

/-- A document under construction. -/
structure Draft where
  /-- The tables so far. -/
  entries : Entries := []
  /-- The path of the current table. -/
  current : List Text := []
  deriving Repr

namespace Draft

/-- The draft after one more statement. -/
def add (d : Draft) : Statement → Option Draft
  | .assign key value =>
    (Change.underHeader (Entries.assign key value) d.current .header d.entries).map fun entries =>
      { d with entries }
  | .openTable key =>
    (Entries.openTable key .header d.entries).map fun entries =>
      ⟨entries, key.path ++ [key.last]⟩
  | .openItem key =>
    (Entries.openItem key .header d.entries).map fun entries =>
      ⟨entries, key.path ++ [key.last]⟩

end Draft

/-- The table that some statements make up, if they do not contradict each other. -/
def Entries.ofStatements (statements : List Statement) : Option Entries :=
  (statements.foldlM Draft.add {}).map Draft.entries

end Lexis.Toml
