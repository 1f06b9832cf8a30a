import Lexis.Proofs.DocumentLine

/-!
# Documents in sections

A document that is written section by section, each with a header and the values of its keys below,
describes the table of its sections. A header opens a table at the end of those before, and the keys
below it go to the end of that table, as long as no name comes twice.

* `Toml.Entries.alter_append`, `Toml.Entries.alter_of_not_mem`: a change behind all keys of other
  names, and one that adds a key.
* `Toml.Entry`, `Toml.Section`: the written form of a key and of a section, with what makes them
  readable.
* `Toml.Draft.add_openTable`, `Toml.Draft.add_assign`: what one statement adds, and
  `Toml.Draft.foldlM_statements`, what a section adds.
* `Toml.read?_layout`: the document of some sections has their table.
-/

namespace Lexis.Toml

/-! ## Changes at the end of a table -/

/-- A change of a key does not touch what stands in front of it. -/
theorem Entries.alter_append {key : Text} {front : Entries} (h : key ∉ front.map Prod.fst)
    (f : Option Value → Option Value) (rest : Entries) :
    alter key f (front ++ rest) = (alter key f rest).map (front ++ ·) := by
  induction front with
  | nil => simp
  | cons entry front ih =>
    obtain ⟨hkey, hfront⟩ := not_or.mp (mt List.mem_cons.mpr h)
    rw [List.cons_append, alter, if_neg (Ne.symm hkey), ih hfront, Option.map_map]
    rfl

/-- A key that is not there is added at the end. -/
theorem Entries.alter_of_not_mem {key : Text} {entries : Entries} (h : key ∉ entries.map Prod.fst)
    (f : Option Value → Option Value) :
    alter key f entries = (f none).map fun value => entries ++ [(key, value)] := by
  have hend := alter_append h f []
  rw [List.append_nil, alter, Option.map_map] at hend
  exact hend

/-! ## Sections -/

/-- A key as it is written, with a text that spells its value. -/
structure Entry where
  /-- The key, a single part without quotes. -/
  key : Text
  /-- How the value is written. -/
  spelling : Text
  /-- The value. -/
  value : Value
  key_ne_nil : key ≠ []
  isBare_key : key.all Read.isBare = true
  spells : Read.Spells spelling value

/-- The line of an entry. -/
def Entry.line (e : Entry) : Text := e.key ++ ' ' :: '=' :: ' ' :: (e.spelling ++ ['\n'])

/-- What the line of an entry says. -/
def Entry.statement (e : Entry) : Statement := .assign ⟨[], e.key⟩ e.value

/-- A header with the entries below it. -/
structure Section where
  /-- The name in the header, a single part without quotes. -/
  name : Text
  /-- The entries. -/
  entries : List Entry
  name_ne_nil : name ≠ []
  isBare_name : name.all Read.isBare = true
  nodup_keys : (entries.map Entry.key).Nodup

namespace Section

/-- The lines of a section. -/
def text (s : Section) : Text := '[' :: (s.name ++ [']', '\n']) ++ s.entries.flatMap Entry.line

/-- What the lines of a section say. -/
def statements (s : Section) : List Statement :=
  .openTable ⟨[], s.name⟩ :: s.entries.map Entry.statement

/-- The table of a section. -/
def table (s : Section) : Entries := s.entries.map fun e => (e.key, e.value)

end Section

/-- Sections one after the other, with an empty line between them. -/
def layout (sections : List Section) : Text := ['\n'].intercalate (sections.map Section.text)

/-! ## What is added to a draft -/

namespace Draft

/-- A header adds a table at the end. -/
theorem add_openTable {name : Text} {entries : Entries} (h : name ∉ entries.map Prod.fst)
    (current : List Text) :
    add ⟨entries, current⟩ (.openTable ⟨[], name⟩) =
      some ⟨entries ++ [(name, .table .header [])], [name]⟩ := by
  have hopen : Entries.openTable ⟨[], name⟩ .header entries =
      some (entries ++ [(name, .table .header [])]) := Entries.alter_of_not_mem h _
  rw [add, hopen]
  rfl

/-- A value for a key is added at the end of the current table. -/
theorem add_assign {name key : Text} {front entries : Entries} (value : Value)
    (hname : name ∉ front.map Prod.fst) (hkey : key ∉ entries.map Prod.fst) :
    add ⟨front ++ [(name, .table .header entries)], [name]⟩ (.assign ⟨[], key⟩ value) =
      some ⟨front ++ [(name, .table .header (entries ++ [(key, value)]))], [name]⟩ := by
  have hassign : Entries.assign ⟨[], key⟩ value .header entries =
      some (entries ++ [(key, value)]) := Entries.alter_of_not_mem hkey _
  have hunder : Change.underHeader (Entries.assign ⟨[], key⟩ value) [name] .header
      (front ++ [(name, .table .header entries)]) =
        some (front ++ [(name, .table .header (entries ++ [(key, value)]))]) := by
    rw [Change.underHeader, Entries.alter_append hname, Entries.alter, if_pos rfl]
    simp only [Option.getD_some, Value.change, Change.underHeader, hassign, Option.map_some]
  rw [add, hunder]
  rfl

/-- The entries below a header are added one by one. -/
theorem foldlM_entries {name : Text} {front entries : Entries}
    (hname : name ∉ front.map Prod.fst) {more : List Entry}
    (hkeys : (entries.map Prod.fst ++ more.map Entry.key).Nodup) :
    (more.map Entry.statement).foldlM add ⟨front ++ [(name, .table .header entries)], [name]⟩ =
      some ⟨front ++ [(name, .table .header (entries ++ more.map fun e => (e.key, e.value)))],
        [name]⟩ := by
  induction more generalizing entries with
  | nil => simp
  | cons e more ih =>
    have hkey : e.key ∉ entries.map Prod.fst := fun hmem =>
      (List.nodup_append.mp hkeys).2.2 e.key hmem e.key List.mem_cons_self rfl
    have hkeys' : ((entries ++ [(e.key, e.value)]).map Prod.fst ++ more.map Entry.key).Nodup := by
      simpa using hkeys
    rw [List.map_cons, List.foldlM_cons, Entry.statement, add_assign e.value hname hkey]
    simpa using ih hkeys'

/-- **A section** is added to the sections before it. -/
theorem foldlM_statements {s : Section} {entries : Entries}
    (hname : s.name ∉ entries.map Prod.fst) (current : List Text) :
    s.statements.foldlM add ⟨entries, current⟩ =
      some ⟨entries ++ [(s.name, .table .header s.table)], [s.name]⟩ := by
  have hkeys : (([] : Entries).map Prod.fst ++ s.entries.map Entry.key).Nodup := s.nodup_keys
  rw [Section.statements, List.foldlM_cons, add_openTable hname]
  exact foldlM_entries hname hkeys

/-- So are several. -/
theorem exists_foldlM_sections {sections : List Section} {entries : Entries}
    (hnames : (entries.map Prod.fst ++ sections.map Section.name).Nodup) (current : List Text) :
    ∃ current', (sections.flatMap Section.statements).foldlM add ⟨entries, current⟩ =
      some ⟨entries ++ sections.map fun s => (s.name, .table .header s.table), current'⟩ := by
  induction sections generalizing entries current with
  | nil => exact ⟨current, by simp⟩
  | cons s sections ih =>
    have hname : s.name ∉ entries.map Prod.fst := fun hmem =>
      (List.nodup_append.mp hnames).2.2 s.name hmem s.name List.mem_cons_self rfl
    have hnames' : ((entries ++ [(s.name, Value.table .header s.table)]).map Prod.fst ++
        sections.map Section.name).Nodup := by
      simpa using hnames
    obtain ⟨current', hrest⟩ := ih hnames' [s.name]
    refine ⟨current', ?_⟩
    rw [List.flatMap_cons, List.foldlM_append, foldlM_statements hname]
    simpa using hrest

end Draft

/-! ## The lines of sections -/

/-- The lines of a section with their statements. -/
def Section.lines (s : Section) : List (Text × Option Statement) :=
  ('[' :: (s.name ++ [']', '\n']), some (.openTable ⟨[], s.name⟩)) ::
    s.entries.map fun e => (e.line, some e.statement)

/-- The lines of some sections with their statements. -/
def layoutLines : List Section → List (Text × Option Statement)
  | [] => []
  | [s] => s.lines
  | s :: s' :: sections => s.lines ++ (['\n'], none) :: layoutLines (s' :: sections)

theorem Section.flatMap_lines (s : Section) : s.lines.flatMap Prod.fst = s.text := by
  rw [lines, List.flatMap_cons, List.flatMap_map]
  rfl

theorem Section.statements_of_lines (s : Section) :
    s.lines.flatMap (·.2.toList) = s.statements := by
  rw [lines, List.flatMap_cons, List.flatMap_map, statements, List.map_eq_flatMap]
  rfl

theorem flatMap_layoutLines (sections : List Section) :
    (layoutLines sections).flatMap Prod.fst = layout sections := by
  induction sections with
  | nil => rfl
  | cons s sections ih =>
    cases sections with
    | nil => simp [layoutLines, layout, s.flatMap_lines]
    | cons s' sections =>
      rw [layoutLines, List.flatMap_append, List.flatMap_cons, ih, s.flatMap_lines]
      simp [layout]

theorem statements_of_layoutLines (sections : List Section) :
    (layoutLines sections).flatMap (·.2.toList) = sections.flatMap Section.statements := by
  induction sections with
  | nil => rfl
  | cons s sections ih =>
    cases sections with
    | nil => simp [layoutLines, s.statements_of_lines]
    | cons s' sections =>
      rw [layoutLines, List.flatMap_append, List.flatMap_cons, ih, s.statements_of_lines]
      rfl

theorem Section.takes_of_mem_lines (s : Section) :
    ∀ l ∈ s.lines, l.1 ≠ [] ∧ Read.line.Takes l.1 l.2 := by
  intro l hl
  rcases List.mem_cons.mp hl with rfl | hl
  · exact ⟨List.cons_ne_nil _ _, Read.line_header s.name_ne_nil s.isBare_name⟩
  · obtain ⟨e, -, rfl⟩ := List.mem_map.mp hl
    exact ⟨by simp [Entry.line], Read.line_assign e.key_ne_nil e.isBare_key e.spells⟩

theorem takes_of_mem_layoutLines {sections : List Section} :
    ∀ l ∈ layoutLines sections, l.1 ≠ [] ∧ Read.line.Takes l.1 l.2 := by
  induction sections with
  | nil => simp [layoutLines]
  | cons s sections ih =>
    cases sections with
    | nil => exact s.takes_of_mem_lines
    | cons s' sections =>
      intro l hl
      rcases List.mem_append.mp hl with hfront | hrest
      · exact s.takes_of_mem_lines l hfront
      · rcases List.mem_cons.mp hrest with rfl | hrest
        · exact ⟨List.cons_ne_nil _ _, Read.line_empty⟩
        · exact ih l hrest

/-- **A document in sections** describes their table. -/
theorem read?_layout {sections : List Section} (hnames : (sections.map Section.name).Nodup) :
    read? (layout sections) =
      some (sections.map fun s => (s.name, .table .header s.table)) := by
  have hmark : ((layoutLines sections).flatMap Prod.fst).head? ≠ some '\uFEFF' := by
    rw [flatMap_layoutLines]
    match sections with
    | [] => simp [layout]
    | [s] => simp [layout, Section.text]
    | s :: s' :: sections => simp [layout, Section.text]
  have hstatements := Read.statements_of_lines takes_of_mem_layoutLines hmark
  rw [flatMap_layoutLines, statements_of_layoutLines] at hstatements
  have hnames' : (([] : Entries).map Prod.fst ++ sections.map Section.name).Nodup := hnames
  obtain ⟨current, hfold⟩ := Draft.exists_foldlM_sections hnames' []
  have htable : Entries.ofStatements (sections.flatMap Section.statements) =
      some (sections.map fun s => (s.name, .table .header s.table)) := by
    rw [Entries.ofStatements, hfold]
    rfl
  rw [read?, hstatements]
  exact htable

end Lexis.Toml
