import Lexis.Tool.Failure

/-!
# Disks

A disk is a tree of directories and files by their names. A path is walked name by name: an empty
name and `.` stay, `..` goes up, and only a directory is walked through. The root is a directory
that is always there. Names and whole paths have a greatest length.

* `Place`: a place on a disk, with the steps that lead to it from the root.
* `Place.enter`: one more step, as `Place.exists_of_enter` and `Place.enter_of_directory` say.
* `Disk.refusal?`: why a path is refused as it stands.
* `Disk.read`, `Disk.isPresent`: the text of a file, and whether a path leads anywhere.
* `Disk.ensure`, `Disk.store`, `Disk.write`: make a directory or a file, with the directories that
  lead to it.
-/

namespace Lexis

/-- What a path leads to. -/
inductive Node where
  /-- A directory with what is in it, by name. -/
  | directory (entries : List (Text × Node))
  /-- A file; one whose bytes are no text has no content. -/
  | file (content : Option Text)
  deriving Repr

/-- Whether a node is a directory. -/
def Node.isDirectory : Node → Bool
  | .directory _ => true
  | .file _ => false

/-! ## Places -/

/-- A step from a directory to one of its names. -/
structure Place.Step where
  /-- The name. -/
  name : Text
  /-- What is in the directory. -/
  siblings : List (Text × Node)
  deriving Repr

/-- A place, as it is reached from the root. -/
structure Place where
  /-- The steps that lead to it, the last first. -/
  steps : List Place.Step
  /-- What is there. -/
  node? : Option Node
  deriving Repr

namespace Place

/-- The greatest number of bytes of a name. -/
def maxName : Nat := 255

/-- The directory of a place; that of the root is the root. -/
def up (p : Place) : Place :=
  match p.steps with
  | [] => p
  | step :: steps => ⟨steps, some (.directory step.siblings)⟩

/-- The place to which a name leads from a directory. Nothing need be there. -/
def enter (p : Place) (name : Text) : Except IoError Place :=
  match p.node? with
  | none => .error .notFound
  | some (.file _) => .error .notDirectory
  | some (.directory entries) =>
    if name = [] ∨ name = ['.'] then .ok p
    else if name = ['.', '.'] then .ok p.up
    else if maxName < name.byteSize then .error .nameTooLong
    else .ok ⟨⟨name, entries⟩ :: p.steps, entries.lookup name⟩

/-- A place that is left is a directory. -/
theorem exists_of_enter {p q : Place} {name : Text} (h : p.enter name = .ok q) :
    ∃ entries, p.node? = some (.directory entries) := by
  unfold enter at h
  split at h
  · contradiction
  · contradiction
  · rename_i entries hentries
    exact ⟨entries, hentries⟩

/-- From a directory a name leads to the directory itself, to the one above, or to what is there
under the name. -/
theorem enter_of_directory {p : Place} {entries : List (Text × Node)} {name : Text}
    (h : p.node? = some (.directory entries)) :
    p.enter name =
      if name = [] ∨ name = ['.'] then .ok p
      else if name = ['.', '.'] then .ok p.up
      else if maxName < name.byteSize then .error .nameTooLong
      else .ok ⟨⟨name, entries⟩ :: p.steps, entries.lookup name⟩ := by
  rw [enter, h]

/-- The root of the tree that leads to a place, with another node at the place. -/
def rootWith (node : Node) : List Step → Node
  | [] => node
  | step :: steps =>
    rootWith (.directory ((step.name, node) :: step.siblings.filter (·.1 ≠ step.name))) steps

/-- Whether a name stands for a node of its own. -/
def isProper (name : Text) : Bool := name ≠ [] && name ≠ ['.'] && name ≠ ['.', '.']

end Place

/-! ## Disks -/

/-- Directories and files. -/
structure Disk where
  /-- The root. -/
  root : Node := .directory []
  /-- The names that lead from the root to the directory in which relative paths start. -/
  current : List Text := []
  deriving Repr

namespace Disk

/-- The disk with a node at a place. -/
def put (d : Disk) (place : Place) (node : Node) : Disk :=
  { d with root := Place.rootWith node place.steps }

/-! ## Paths -/

/-- The parts of a path between slashes. -/
def parts (path : Text) : List Text := path.splitOn '/'

/-- The path of a name in a directory: a slash stands between the two, unless one is there. -/
def join (directory name : Text) : Text :=
  if directory.getLast? = some '/' then directory ++ name else directory ++ '/' :: name

/-- The place at which a path starts. -/
def base (d : Disk) (path : Text) : Except IoError Place :=
  let root : Place := ⟨[], some d.root⟩
  if path.head? = some '/' then .ok root else d.current.foldlM Place.enter root

/-- The greatest number of bytes of a path. -/
def maxPath : Nat := 4095

/-- Why a path is refused before anything is looked for. -/
def refusal? (path : Text) : Option IoError :=
  if path.contains '\x00' then some .nulInName
  else if maxPath < path.byteSize then some .nameTooLong
  else if path.isEmpty then some .notFound
  else none

/-- The place to which some parts of a path lead. Nothing need be there, but all places on the way
are directories. -/
def walk (d : Disk) (path : Text) (names : List Text) : Except IoError Place :=
  match refusal? path with
  | some e => .error e
  | none => (d.base path).bind fun base => names.foldlM Place.enter base

/-- The node to which a path leads. -/
def find (d : Disk) (path : Text) : Except IoError Node := do
  match (← d.walk path (parts path)).node? with
  | some node => return node
  | none => throw .notFound

/-- Whether a path leads to a file or a directory. -/
def isPresent (d : Disk) (path : Text) : Bool := (d.find path).isOk

/-- The text of the file to which a path leads. -/
def read (d : Disk) (path : Text) : Except IoError Text := do
  match ← d.find path with
  | .directory _ => throw .isDirectory
  | .file none => throw .notText
  | .file (some content) => return content

/-! ## Writing -/

/-- How a change of a disk went, and the disk afterwards. -/
abbrev Changed : Type := Except IoError Unit × Disk

/-- A change of `d` that leaves it as it is where it fails. -/
def changed (d : Disk) : Except IoError Disk → Changed
  | .ok d => (.ok (), d)
  | .error e => (.error e, d)

/-- Makes the directory to which a path leads. -/
def makeDirectory (d : Disk) (path : Text) : Except IoError Disk := do
  let place ← d.walk path (parts path)
  if place.node?.isSome then throw .alreadyExists
  return d.put place (.directory [])

/-- Whether a path leads to a directory. -/
def isDirectory (d : Disk) (path : Text) : Bool :=
  match d.find path with
  | .ok node => node.isDirectory
  | .error _ => false

/-- Makes a directory unless it is there. -/
def ensureDirectory (d : Disk) (path : Text) : Except IoError Disk :=
  match d.makeDirectory path with
  | .ok d => .ok d
  | .error e => if d.isDirectory path then .ok d else .error e

/-- Makes the first of some directories, unless it is there. Each of the paths leads to the one in
front of it, and is made where it is missing; what has been made stays. -/
def ensureDirectories (d : Disk) : List Text → Changed
  | [] => (.ok (), d)
  | path :: paths =>
    match d.ensureDirectory path with
    | .error .notFound =>
      match d.ensureDirectories paths with
      | (.ok (), d) => d.changed (d.ensureDirectory path)
      | failed => failed
    | result => d.changed result

/-- The fronts of a path, the longest first. Each ends with a name that says something: it is not
empty, and it is no `.` but at the very front. -/
def fronts (path : Text) : List Text :=
  let all := parts path
  let ends := (List.range all.length).filter fun n =>
    all[n]? != some [] && (n == 0 || all[n]? != some ['.'])
  ends.reverse.map fun n => ['/'].intercalate (all.take (n + 1))

/-- Makes a directory and those that lead to it. -/
def ensure (d : Disk) (path : Text) : Changed := d.ensureDirectories (fronts path)

/-- Makes the directories that lead to a path. -/
def ensureParents (d : Disk) (path : Text) : Changed := d.ensureDirectories (fronts path).tail

/-- Makes the file to which a path leads, or gives it a new content. A path that ends in a slash,
`.` or `..` is that of a directory. -/
def create (d : Disk) (path : Text) (content : Option Text) : Except IoError Disk := do
  let all := parts path
  let kept := (all.reverse.dropWhile List.isEmpty).reverse
  let name := kept.getLast?.getD []
  let start ← (← d.walk path kept.dropLast).enter []
  if kept.length < all.length || !Place.isProper name then throw .isDirectory
  let place ← start.enter name
  if place.node?.any Node.isDirectory then throw .isDirectory
  return d.put place (.file content)

/-- Makes a file, after the directories that lead to it are made. -/
def store (d : Disk) (path : Text) (content : Option Text) : Changed :=
  match d.ensureParents path with
  | (.ok (), d) => d.changed (d.create path content)
  | failed => failed

/-- Writes a text to a file, after the directories that lead to it are made. -/
def write (d : Disk) (path content : Text) : Changed := d.store path (some content)

end Disk

end Lexis
