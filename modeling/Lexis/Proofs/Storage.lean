import Lexis.Tool.Disk

/-!
# What is stored is read back

A file that has been written to a path is what the path leads to afterwards. Between the two the
tree is a different one, and the directories on the way are remembered with what was in them before,
so a walk is compared with its repetition name by name: `Node.at?` says what names lead to from the
root, and a place is *in* a tree if it is what its own names lead to there.

* `Place.In`: a place is in a tree. `Place.In.enter` says that one more step keeps it there.
* `Place.at?_rootWith`, `Place.isDirectoryAt_rootWith`: what names lead to when the node at a place
  has been replaced.
* `Place.In.exists_foldlM`: a walk can be repeated in every tree that has at least the same
  directories, and leads to the same names.
* `Disk.read_of_create`, `Disk.read_of_write`: what is written to a path is read from it.
-/

namespace Lexis

/-! ## Names that lead to a node -/

namespace Node

/-- The node to which proper names lead from a node. -/
def at? : Node → List Text → Option Node
  | node, [] => some node
  | .directory entries, name :: names => (entries.lookup name).bind (at? · names)
  | .file _, _ :: _ => none

/-- Whether proper names lead from a node to a directory. -/
def isDirectoryAt (node : Node) (names : List Text) : Bool := (node.at? names).any isDirectory

@[simp] theorem at?_nil (node : Node) : node.at? [] = some node := by cases node <;> rfl

theorem at?_append (node : Node) (front names : List Text) :
    node.at? (front ++ names) = (node.at? front).bind (·.at? names) := by
  induction front generalizing node with
  | nil => simp
  | cons name front ih =>
    cases node with
    | file content => rfl
    | directory entries =>
      rw [List.cons_append, at?, at?]
      cases entries.lookup name with
      | none => rfl
      | some node => exact ih node

theorem exists_of_isDirectory {node? : Option Node} (h : node?.any isDirectory = true) :
    ∃ entries, node? = some (.directory entries) := by
  cases node? with
  | none => contradiction
  | some node =>
    cases node with
    | file content => contradiction
    | directory entries => exact ⟨entries, rfl⟩

/-- Nothing lies behind what is no directory. -/
theorem isDirectoryAt_append_eq_false {node : Node} {front : List Text}
    (h : node.isDirectoryAt front = false) (names : List Text) :
    node.isDirectoryAt (front ++ names) = false := by
  unfold isDirectoryAt at h ⊢
  rw [at?_append]
  cases hfront : node.at? front with
  | none => rfl
  | some found =>
    cases found with
    | directory entries =>
      rw [hfront] at h
      contradiction
    | file content => cases names <;> rfl

end Node

namespace Place

/-! ## Places of a tree -/

/-- The names that lead from the root through some steps. -/
def names : List Step → List Text
  | [] => []
  | step :: steps => names steps ++ [step.name]

theorem names_up (p : Place) : names p.up.steps = (names p.steps).dropLast := by
  obtain ⟨steps, node?⟩ := p
  cases steps with
  | nil => rfl
  | cons step steps => exact (List.dropLast_concat ..).symm

/-- Each step starts from a directory of the tree. -/
def Rooted (root : Node) : List Step → Prop
  | [] => True
  | step :: steps => root.at? (names steps) = some (.directory step.siblings) ∧ Rooted root steps

/-- The place is what its names lead to in the tree. -/
structure In (root : Node) (p : Place) : Prop where
  rooted : Rooted root p.steps
  node?_eq : p.node? = root.at? (names p.steps)

theorem in_root (root : Node) : In root ⟨[], some root⟩ := ⟨trivial, (Node.at?_nil root).symm⟩

/-- **A step leads to another place of the tree.** -/
theorem In.enter {root : Node} {p q : Place} {name : Text} (h : In root p)
    (hq : p.enter name = .ok q) : In root q := by
  obtain ⟨entries, hentries⟩ := exists_of_enter hq
  rw [enter_of_directory hentries] at hq
  split at hq
  · exact Except.ok.inj hq ▸ h
  split at hq
  · obtain rfl := Except.ok.inj hq
    obtain ⟨steps, node?⟩ := p
    cases steps with
    | nil => exact h
    | cons step steps => exact ⟨h.rooted.2, h.rooted.1.symm⟩
  split at hq
  · contradiction
  · obtain rfl := Except.ok.inj hq
    have hroot := h.node?_eq.symm.trans hentries
    refine ⟨⟨hroot, h.rooted⟩, ?_⟩
    dsimp only
    rw [names, Node.at?_append, hroot]
    cases hnode : entries.lookup name <;> simp [Node.at?, hnode]

/-! ## Walks in two trees -/

/-- The same name leads from two directories with the same names to places with the same names. -/
theorem exists_enter_of_names {p p' q : Place} {entries' : List (Text × Node)} {name : Text}
    (hnames : names p.steps = names p'.steps) (hp' : p'.node? = some (.directory entries'))
    (hq : p.enter name = .ok q) :
    ∃ q', p'.enter name = .ok q' ∧ names q.steps = names q'.steps := by
  obtain ⟨entries, hentries⟩ := exists_of_enter hq
  rw [enter_of_directory hentries] at hq
  rw [enter_of_directory hp']
  split at hq
  · rename_i hstay
    exact ⟨p', if_pos hstay, Except.ok.inj hq ▸ hnames⟩
  rename_i hmove
  rw [if_neg hmove]
  split at hq
  · rename_i hup
    refine ⟨p'.up, if_pos hup, ?_⟩
    rw [← Except.ok.inj hq, names_up, names_up, hnames]
  rename_i hdown
  rw [if_neg hdown]
  split at hq
  · contradiction
  · rename_i hsize
    refine ⟨_, if_neg hsize, ?_⟩
    rw [← Except.ok.inj hq]
    exact congrArg (· ++ [name]) hnames

/-- **A walk can be repeated** in a tree that has at least the same directories: it leads to the
same names. -/
theorem In.exists_foldlM {root root' : Node} {p p' q : Place} {path : List Text}
    (hdirs : ∀ ns, root.isDirectoryAt ns = true → root'.isDirectoryAt ns = true) (h : In root p)
    (h' : In root' p') (hnames : names p.steps = names p'.steps)
    (hq : path.foldlM Place.enter p = .ok q) :
    In root q ∧ ∃ q', path.foldlM Place.enter p' = .ok q' ∧ In root' q' ∧
      names q.steps = names q'.steps := by
  induction path generalizing p p' with
  | nil =>
    obtain rfl := Except.ok.inj hq
    exact ⟨h, p', rfl, h', hnames⟩
  | cons name path ih =>
    rw [List.foldlM_cons] at hq
    cases hstep : p.enter name with
    | error e =>
      rw [hstep] at hq
      contradiction
    | ok k =>
      rw [hstep] at hq
      -- the place that is left is a directory, so the place of the same names is one
      obtain ⟨entries, hentries⟩ := exists_of_enter hstep
      have hdir : root.isDirectoryAt (names p.steps) = true := by
        rw [Node.isDirectoryAt, ← h.node?_eq, hentries]
        rfl
      obtain ⟨entries', hentries'⟩ := Node.exists_of_isDirectory (hdirs _ hdir)
      rw [hnames, ← h'.node?_eq] at hentries'
      obtain ⟨k', hstep', hk⟩ := exists_enter_of_names hnames hentries' hstep
      obtain ⟨hin, q', hrest, hq'⟩ := ih (h.enter hstep) (h'.enter hstep') hk hq
      refine ⟨hin, q', ?_, hq'⟩
      rw [List.foldlM_cons, hstep']
      exact hrest

/-! ## A replaced node -/

/-- The other names of a directory lead to what they led to. -/
theorem lookup_cons_filter (step : Step) (node : Node) {name : Text} (h : name ≠ step.name) :
    ((step.name, node) :: step.siblings.filter (·.1 ≠ step.name)).lookup name =
      step.siblings.lookup name := by
  have hne : (name == step.name) = false := by simpa using h
  rw [List.lookup_cons, hne]
  dsimp only
  induction step.siblings with
  | nil => rfl
  | cons entry entries ih =>
    obtain ⟨key, found⟩ := entry
    by_cases hkey : key = step.name
    · simpa [List.lookup_cons, hkey, hne] using ih
    · simp only [ne_eq, hkey, not_false_eq_true, decide_true, List.filter_cons_of_pos,
        List.lookup_cons, ih]

/-- **The names of a replaced node lead to what it is replaced by.** -/
theorem at?_rootWith (node : Node) (steps : List Step) (rest : List Text) :
    (rootWith node steps).at? (names steps ++ rest) = node.at? rest := by
  induction steps generalizing node rest with
  | nil => rfl
  | cons step steps ih =>
    rw [rootWith, names, List.append_assoc, ih, List.singleton_append, Node.at?,
      List.lookup_cons_self]
    rfl

/-- **Directories stay** where a node is replaced by one that has the directories behind it. -/
theorem isDirectoryAt_rootWith {root node : Node} {steps : List Step} (h : Rooted root steps)
    (hnode : ∀ rest, root.isDirectoryAt (names steps ++ rest) = true →
      node.isDirectoryAt rest = true) {ns : List Text} (hns : root.isDirectoryAt ns = true) :
    (rootWith node steps).isDirectoryAt ns = true := by
  induction steps generalizing node with
  | nil => exact hnode ns hns
  | cons step steps ih =>
    refine ih h.2 fun rest hrest => ?_
    cases rest with
    | nil => rfl
    | cons name rest =>
      rw [Node.isDirectoryAt, Node.at?]
      by_cases hname : name = step.name
      · subst hname
        rw [List.lookup_cons_self]
        refine hnode rest ?_
        rwa [names, List.append_assoc]
      · -- the other names of the directory are left as they are
        rw [Node.isDirectoryAt, Node.at?_append, h.1] at hrest
        rw [lookup_cons_filter step node hname]
        exact hrest

end Place

namespace Disk

/-! ## Reading what is written -/

/-- The base of a path in a disk with another tree. -/
theorem exists_base {d d' : Disk} {path : Text} {base : Place}
    (hdirs : ∀ ns, d.root.isDirectoryAt ns = true → d'.root.isDirectoryAt ns = true)
    (hcurrent : d'.current = d.current) (h : d.base path = .ok base) :
    base.In d.root ∧ ∃ base', d'.base path = .ok base' ∧ base'.In d'.root ∧
      Place.names base.steps = Place.names base'.steps := by
  unfold Disk.base at h ⊢
  dsimp only at h ⊢
  split at h
  · rename_i habsolute
    obtain rfl := Except.ok.inj h
    exact ⟨Place.in_root _, _, if_pos habsolute, Place.in_root _, rfl⟩
  · rename_i hrelative
    rw [if_neg hrelative, hcurrent]
    exact (Place.in_root d.root).exists_foldlM hdirs (Place.in_root d'.root) rfl h

/-- A path that does not end in a slash ends in a name. -/
theorem exists_parts_of_not_lt {all kept : List Text}
    (hkept : kept = (all.reverse.dropWhile List.isEmpty).reverse)
    (hlength : ¬kept.length < all.length)
    (hproper : Place.isProper (kept.getLast?.getD []) = true) :
    ∃ name, all = kept.dropLast ++ [name] ∧ kept.getLast?.getD [] = name := by
  have hsuffix : kept.reverse <:+ all.reverse := by
    rw [hkept, List.reverse_reverse]
    exact List.dropWhile_suffix _
  have hall : kept = all :=
    (List.reverse_suffix.mp hsuffix).eq_of_length_le (Nat.le_of_not_lt hlength)
  cases hlast : kept.getLast? with
  | none =>
    rw [hlast] at hproper
    contradiction
  | some name =>
    obtain ⟨front, hfront⟩ := List.getLast?_eq_some_iff.mp hlast
    refine ⟨name, ?_, rfl⟩
    rw [← hall, hfront, List.dropLast_concat]

/-- What it takes to make a file: the path leads to a name that is no directory, through places that
are. -/
theorem create_eq_ok {d d' : Disk} {path : Text} {content : Option Text}
    (h : d.create path content = .ok d') :
    ∃ front name base start place, parts path = front ++ [name] ∧ refusal? path = none ∧
      d.base path = .ok base ∧ front.foldlM Place.enter base = .ok start ∧
      start.enter name = .ok place ∧ place.node?.any Node.isDirectory = false ∧
      d' = d.put place (.file content) := by
  unfold create walk at h
  simp only [bind, Except.bind] at h
  split at h
  · contradiction
  rename_i start hwalk
  split at h
  · contradiction
  rename_i here hhere
  split at h
  · contradiction
  rename_i hends
  split at h
  · contradiction
  rename_i place hplace
  split at h
  · contradiction
  rename_i hdirectory
  -- the empty name only asks for a directory
  obtain rfl : start = here := by
    obtain ⟨entries, hentries⟩ := Place.exists_of_enter hhere
    rw [Place.enter_of_directory hentries, if_pos (.inl rfl)] at hhere
    exact Except.ok.inj hhere
  simp only [Bool.or_eq_true, decide_eq_true_eq, Bool.not_eq_true', not_or,
    Bool.not_eq_false] at hends
  obtain ⟨hlength, hproper⟩ := hends
  obtain ⟨name, hparts, hname⟩ := exists_parts_of_not_lt rfl hlength hproper
  rw [hname] at hplace
  split at hwalk
  · contradiction
  rename_i hrefusal
  split at hwalk
  · contradiction
  rename_i base hbase
  exact ⟨_, name, base, start, place, hparts, hrefusal, hbase, hwalk, hplace,
    by simpa using hdirectory, (Except.ok.inj h).symm⟩

/-- **What is put into a file is read from it.** -/
theorem read_of_create {d d' : Disk} {path content : Text}
    (h : d.create path (some content) = .ok d') : d'.read path = .ok content := by
  obtain ⟨front, name, base, start, place, hparts, hrefusal, hbase, hstart, hplace, hfile,
    rfl⟩ := create_eq_ok h
  have hwalk : (parts path).foldlM Place.enter base = .ok place := by
    have hlast : [name].foldlM Place.enter start = .ok place := by
      rw [List.foldlM_cons, hplace]
      rfl
    rw [hparts, List.foldlM_append, hstart]
    exact hlast
  -- the walk in the tree as it was: its end is no directory there
  have hsame : ∀ ns, d.root.isDirectoryAt ns = true → d.root.isDirectoryAt ns = true :=
    fun _ h => h
  have hbaseIn := (exists_base hsame rfl hbase).1
  have hplaceIn := (hbaseIn.exists_foldlM hsame hbaseIn rfl hwalk).1
  have hdirs : ∀ ns, d.root.isDirectoryAt ns = true →
      (d.put place (.file (some content))).root.isDirectoryAt ns = true := by
    refine fun ns => Place.isDirectoryAt_rootWith hplaceIn.rooted fun rest hrest => ?_
    have hnone : d.root.isDirectoryAt (Place.names place.steps) = false := by
      rw [Node.isDirectoryAt, ← hplaceIn.node?_eq, hfile]
    rw [Node.isDirectoryAt_append_eq_false hnone] at hrest
    contradiction
  -- the same walk in the tree as it is now
  obtain ⟨-, base', hbase', hbaseIn', hnames⟩ := exists_base hdirs rfl hbase
  obtain ⟨-, place', hwalk', hplaceIn', hnames'⟩ :=
    hbaseIn.exists_foldlM hdirs hbaseIn' hnames hwalk
  have hnode : place'.node? = some (.file (some content)) := by
    rw [hplaceIn'.node?_eq, ← hnames', ← List.append_nil (Place.names place.steps)]
    exact Place.at?_rootWith _ _ []
  unfold read find walk
  simp only [hrefusal, hbase', hwalk', hnode, bind, Except.bind]
  rfl

/-- **What is written to a path is read from it**, whatever directories had to be made for it. -/
theorem read_of_write {d d' : Disk} {path content : Text}
    (h : d.write path content = (.ok (), d')) : d'.read path = .ok content := by
  unfold write store at h
  split at h
  · rename_i made hmade
    cases hcreate : made.create path (some content) with
    | error e =>
      rw [hcreate] at h
      cases h
    | ok written =>
      rw [hcreate] at h
      obtain ⟨-, rfl⟩ := Prod.mk.inj h
      exact read_of_create hcreate
  · rename_i hfailed
    exact absurd h (hfailed _)

/-- A path that is read is present. -/
theorem isPresent_of_read {d : Disk} {path content : Text} (h : d.read path = .ok content) :
    d.isPresent path = true := by
  unfold isPresent
  cases hfind : d.find path with
  | error e =>
    simp only [read, hfind, bind, Except.bind] at h
    contradiction
  | ok node => rfl

end Disk

end Lexis
