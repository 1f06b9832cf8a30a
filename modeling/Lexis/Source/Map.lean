import Lexis.Source.File

/-!
# Source maps

A source map numbers its files in the order in which they are added, from zero.

* `SourceMap.insert`: adds a file under the next number.
* `SourceMap.get?`, `SourceMap.find`: a file by its number, absent or as an error.
* `SourceMap.get?_insert_self`: the file just added is found under its number.
-/

namespace Lexis

/-- A file number that no file has. -/
structure FileNotFound where
  /-- The number. -/
  id : FileId
  deriving DecidableEq, Repr

/-- The text of the error. -/
def FileNotFound.message (e : FileNotFound) : String := "File not found: " ++ e.id.display

/-- Files by number. -/
structure SourceMap where
  /-- The files, in the order of their numbers. -/
  files : List SourceFile := []
  deriving DecidableEq, Repr

namespace SourceMap

/-- The map without files. -/
def empty : SourceMap := {}

/-- The number of files. -/
def size (m : SourceMap) : Nat := m.files.length

/-- Adds a file and gives its number. -/
def insert (m : SourceMap) (name : String) (content : Text) : FileId × SourceMap :=
  let id : FileId := ⟨m.size⟩
  (id, ⟨m.files ++ [⟨id, name, content⟩]⟩)

/-- The file with a number. -/
def get? (m : SourceMap) (id : FileId) : Option SourceFile := m.files[id.index]?

/-- The file with a number, or an error that names the number. -/
def find (m : SourceMap) (id : FileId) : Except FileNotFound SourceFile :=
  match m.get? id with
  | some file => .ok file
  | none => .error ⟨id⟩

@[simp] theorem size_insert (m : SourceMap) (name : String) (content : Text) :
    (m.insert name content).2.size = m.size + 1 := by
  simp [insert, size]

theorem get?_insert_self (m : SourceMap) (name : String) (content : Text) :
    (m.insert name content).2.get? (m.insert name content).1 =
      some ⟨⟨m.size⟩, name, content⟩ := by
  simp [insert, get?, size]

theorem get?_insert_of_lt (m : SourceMap) (name : String) (content : Text) {id : FileId}
    (h : id.index < m.size) : (m.insert name content).2.get? id = m.get? id := by
  simp only [insert, get?]
  exact List.getElem?_append_left h

end SourceMap

end Lexis
