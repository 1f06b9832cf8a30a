import Mathlib.Data.List.Nodup
import Lexis.Proofs.DocumentTable
import Lexis.Proofs.Storage
import Lexis.Tool.Program

/-!
# Settings are read back

The document that holds some settings is written in two sections, so its table is known, and each
key of it has the value that its line spells. A key without a line has its default, whatever the
other keys have, and to leave out lines of the document is to leave out those settings.

* `Settings.FitsWords`: the numbers among the settings fit a word.
* `Settings.spells_value`: how the values are spelt, and `Settings.toList_document`, the sections.
* `Settings.ofToml?_document`: what is read from a document with some of the keys.
* `Settings.dropKeys`: a document without the lines of some keys, and `Settings.dropKeys_toToml`,
  what is left of the document of all settings.
* `Settings.ofToml?_dropKeys_and_loadFrom`: settings are read back from the document without some
  lines, and loaded from the file that they have been saved to.
-/

namespace Lexis.Settings

open Toml

/-- The numbers among the settings fit a word. -/
structure FitsWords (s : Settings) : Prop where
  maxErrors_lt : s.check.maxErrors < Checked.wordSize
  jobs_lt : s.check.jobs < Checked.wordSize

/-- The settings, with the default for each key that is not `kept`. -/
def restrict (s : Settings) (cores : Nat) (kept : Key → Bool) : Settings where
  tokens := {
    format := field .format (·.tokens.format)
    includeHidden := field .includeHidden (·.tokens.includeHidden) }
  check := {
    recover := field .recover (·.check.recover)
    maxErrors := field .maxErrors (·.check.maxErrors)
    verifyRoundtrip := field .verifyRoundtrip (·.check.verifyRoundtrip)
    jobs := field .jobs (·.check.jobs) }
where
  /-- A field of the settings, or of those by default. -/
  field {α : Type} (key : Key) (get : Settings → α) : α :=
    get (if kept key then s else defaults cores)

theorem restrict_all (s : Settings) (cores : Nat) : s.restrict cores (fun _ => true) = s := rfl

/-! ## Values -/

/-- The value that the line of a key gives it. -/
def reading (s : Settings) : Key → Value
  | .format => .string s.tokens.format.name.toList
  | .includeHidden => .boolean s.tokens.includeHidden
  | .recover => .boolean s.check.recover
  | .maxErrors => .integer s.check.maxErrors
  | .verifyRoundtrip => .boolean s.check.verifyRoundtrip
  | .jobs => .integer s.check.jobs

theorem spells_truth (b : Bool) : Read.Spells (truth b).toList (.boolean b) := by
  cases b
  · exact Read.spells_false
  · exact Read.spells_true

theorem spells_word {n : Nat} (h : n < Checked.wordSize) :
    Read.Spells (toString n).toList (.integer n) := by
  rw [Reader.toList_toString_nat]
  exact Read.spells_integer (Nat.lt_trans h (by decide))

theorem spells_format (f : Format) :
    Read.Spells ("\"" ++ f.name ++ "\"").toList (.string f.name.toList) := by
  have hname : f.name.toList.all Read.isUnescaped = true := by cases f <;> decide
  rw [String.toList_append, String.toList_append]
  exact Read.spells_string hname

/-- **Each value** is spelt in the line of its key. -/
theorem spells_value {s : Settings} (h : s.FitsWords) (key : Key) :
    Read.Spells (s.value key).toList (s.reading key) := by
  cases key with
  | format => exact spells_format s.tokens.format
  | includeHidden => exact spells_truth s.tokens.includeHidden
  | recover => exact spells_truth s.check.recover
  | maxErrors => exact spells_word h.maxErrors_lt
  | verifyRoundtrip => exact spells_truth s.check.verifyRoundtrip
  | jobs => exact spells_word h.jobs_lt

theorem not_mem_value (s : Settings) (key : Key) : '\n' ∉ (s.value key).toList := by
  have htruth (b : Bool) : '\n' ∉ (truth b).toList := by cases b <;> decide
  cases key with
  | format => cases hformat : s.tokens.format <;> simp [value, hformat, Format.name]
  | includeHidden => exact htruth s.tokens.includeHidden
  | recover => exact htruth s.check.recover
  | maxErrors => exact Reader.not_mem_toString_nat (by decide) _
  | verifyRoundtrip => exact htruth s.check.verifyRoundtrip
  | jobs => exact Reader.not_mem_toString_nat (by decide) _

/-! ## Sections -/

theorem Key.name_inj {key key' : Key} (h : key.name.toList = key'.name.toList) : key = key' := by
  revert h
  cases key <;> cases key' <;> decide

theorem Key.isBare_name (key : Key) : key.name.toList.all Read.isBare = true := by
  cases key <;> decide

/-- The entry of a key. -/
def entry {s : Settings} (h : s.FitsWords) (key : Key) : Entry where
  key := key.name.toList
  spelling := (s.value key).toList
  value := s.reading key
  key_ne_nil := by cases key <;> decide
  isBare_key := key.isBare_name
  spells := spells_value h key

theorem nodup_entries {s : Settings} (h : s.FitsWords) {keys : List Key} (hkeys : keys.Nodup) :
    ((keys.map (entry h)).map Entry.key).Nodup := by
  rw [List.map_map]
  have hinj : Function.Injective fun key => (entry h key).key :=
    fun key key' hname => Key.name_inj hname
  exact hkeys.map hinj

/-- A section with some of its keys, those to `keep`. -/
def part {s : Settings} (h : s.FitsWords) {name : Text} (hname : name ≠ [])
    (hbare : name.all Read.isBare = true) {keys : List Key} (hkeys : keys.Nodup)
    (keep : Key → Bool) : Toml.Section where
  name := name
  entries := (keys.filter keep).map (entry h)
  name_ne_nil := hname
  isBare_name := hbare
  nodup_keys := nodup_entries h (hkeys.filter keep)

/-- The section for listing tokens. -/
def listingPart {s : Settings} (h : s.FitsWords) (keep : Key → Bool) : Toml.Section :=
  have hname : "tokens".toList ≠ [] := by decide
  have hkeys : listingKeys.Nodup := by decide
  part h hname (by decide) hkeys keep

/-- The section for checking files. -/
def checkPart {s : Settings} (h : s.FitsWords) (keep : Key → Bool) : Toml.Section :=
  have hname : "check".toList ≠ [] := by decide
  have hkeys : checkKeys.Nodup := by decide
  part h hname (by decide) hkeys keep

/-- The line of a key, without its end. -/
def row (s : Settings) (key : Key) : Text := (key.name ++ " = " ++ s.value key).toList

theorem toList_lines (s : Settings) (keys : List Key) :
    (s.lines keys).toList = (keys.map s.row).flatMap (· ++ ['\n']) := by
  induction keys with
  | nil => rfl
  | cons key keys ih =>
    rw [lines] at ih ⊢
    rw [List.map_cons, String.join_cons, String.toList_append, ih, String.toList_append]
    rfl

theorem line_entry {s : Settings} (h : s.FitsWords) (key : Key) :
    (entry h key).line = s.row key ++ ['\n'] := by
  simp [entry, Entry.line, row]

/-- **The document** is in two sections. -/
theorem toList_document {s : Settings} (h : s.FitsWords) (keep : Key → Bool) :
    (s.document keep).toList = layout [listingPart h keep, checkPart h keep] := by
  simp [document, toList_lines, layout, Section.text, listingPart, checkPart, part, line_entry,
    List.flatMap_map]

/-! ## Reading -/

theorem get?_entries {s : Settings} (h : s.FitsWords) (keys : List Key) (key : Key) :
    Entries.get? ((keys.map (entry h)).map fun e => (e.key, e.value)) key.name.toList =
      if key ∈ keys then some (s.reading key) else none := by
  induction keys with
  | nil => rfl
  | cons key' keys ih =>
    rw [Entries.get?] at ih ⊢
    rw [List.map_cons, List.map_cons, List.lookup_cons, ih]
    by_cases hkey : key = key'
    · subst hkey
      simp [entry]
    · have hname : (key.name.toList == (entry h key').key) = false :=
        beq_eq_false_iff_ne.mpr fun hname => hkey (Key.name_inj hname)
      simp [hname, hkey]

/-- A key of a section is decoded as the value of its line, if it has one. -/
theorem decode_table {s : Settings} {h : s.FitsWords} {keys : List Key} {keep : Key → Bool}
    {α : Type} (p : Toml.Section) (hp : p.entries = (keys.filter keep).map (entry h))
    (key : Key) (hkey : key ∈ keys) (decode? : Value → Option α) (get : Settings → α)
    (hvalue : decode? (s.reading key) = some (get s)) (cores : Nat) :
    decode decode? (get (defaults cores)) (Entries.get? p.table key.name.toList) =
      some (restrict.field s cores keep key get) := by
  rw [Section.table, hp, get?_entries, restrict.field]
  cases hkeep : keep key with
  | false => simp [hkeep, decode]
  | true => simp [hkey, hkeep, decode, hvalue]

theorem word?_natCast {n : Nat} (h : n < Checked.wordSize) : word? (.integer n) = some n := by
  simp [word?, h]

/-- **What is read** from a document with some of the keys: their settings, and the default for
each of the others. -/
theorem ofToml?_document {s : Settings} (h : s.FitsWords) (cores : Nat) (keep : Key → Bool) :
    ofToml? cores (s.document keep).toList = some (s.restrict cores keep) := by
  have hnames : ["tokens".toList, "check".toList].Nodup := by decide
  have hread : Toml.read? (layout [listingPart h keep, checkPart h keep]) =
      some [("tokens".toList, .table .header (listingPart h keep).table),
        ("check".toList, .table .header (checkPart h keep).table)] := read?_layout hnames
  have hformat := decode_table (listingPart h keep) rfl .format (by decide) format?
    (·.tokens.format) (Format.ofName?_name s.tokens.format) cores
  have hhidden := decode_table (listingPart h keep) rfl .includeHidden (by decide) boolean?
    (·.tokens.includeHidden) rfl cores
  have hrecover := decode_table (checkPart h keep) rfl .recover (by decide) boolean?
    (·.check.recover) rfl cores
  have hmax := decode_table (checkPart h keep) rfl .maxErrors (by decide) word?
    (·.check.maxErrors) (word?_natCast h.maxErrors_lt) cores
  have hverify := decode_table (checkPart h keep) rfl .verifyRoundtrip (by decide) boolean?
    (·.check.verifyRoundtrip) rfl cores
  have hjobs := decode_table (checkPart h keep) rfl .jobs (by decide) word?
    (·.check.jobs) (word?_natCast h.jobs_lt) cores
  rw [ofToml?, toList_document h, hread, Option.bind_some]
  have htokens : fields? listingKeys (Entries.get?
      [("tokens".toList, .table .header (listingPart h keep).table),
        ("check".toList, .table .header (checkPart h keep).table)] "tokens".toList) =
      some fun key => Entries.get? (listingPart h keep).table key.name.toList := rfl
  have hchecks : fields? checkKeys (Entries.get?
      [("tokens".toList, .table .header (listingPart h keep).table),
        ("check".toList, .table .header (checkPart h keep).table)] "check".toList) =
      some fun key => Entries.get? (checkPart h keep).table key.name.toList := rfl
  rw [ofEntries?, htokens, hchecks]
  simp only [Option.bind_eq_bind, Option.bind_some, hformat, hhidden, hrecover, hmax, hverify,
    hjobs]
  rfl

/-! ## Documents without some lines -/

/-- Whether a line is that of one of the `dropped` keys. -/
def isLineOf (dropped : Key → Bool) (line : Text) : Bool :=
  (listingKeys ++ checkKeys).any fun key =>
    dropped key && (key.name ++ " = ").toList.isPrefixOf line

/-- A document without the lines of the `dropped` keys. -/
def dropKeys (dropped : Key → Bool) (document : Text) : Text :=
  ['\n'].intercalate ((document.splitOn '\n').filter fun line => !isLineOf dropped line)

theorem takeWhile_row (s : Settings) (key : Key) :
    Reader.takeWhile Read.isBare (s.row key) =
      some (key.name.toList, (" = " ++ s.value key).toList) := by
  have hrow : s.row key = key.name.toList ++ (" = " ++ s.value key).toList := by simp [row]
  rw [hrow]
  exact Reader.takeWhile_append key.isBare_name (by simp [Read.isBare])

/-- The line of a key starts with the name of no other key. -/
theorem isPrefixOf_row_iff (s : Settings) {key key' : Key} :
    (key.name ++ " = ").toList.isPrefixOf (s.row key') = true ↔ key = key' := by
  rw [List.isPrefixOf_iff_prefix]
  constructor
  · rintro ⟨rest, hrest⟩
    have hfront : Reader.takeWhile Read.isBare (key.name.toList ++ (" = ".toList ++ rest)) =
        some (key.name.toList, " = ".toList ++ rest) :=
      Reader.takeWhile_append key.isBare_name rfl
    have hrow := s.takeWhile_row key'
    rw [← hrest, String.toList_append, List.append_assoc, hfront] at hrow
    exact Key.name_inj (Prod.mk.inj (Option.some.inj hrow)).1
  · rintro rfl
    exact ⟨(s.value key).toList, by simp [row]⟩

theorem Key.mem_all (key : Key) : key ∈ listingKeys ++ checkKeys := by cases key <;> decide

theorem isLineOf_row (s : Settings) (dropped : Key → Bool) (key : Key) :
    isLineOf dropped (s.row key) = dropped key := by
  rw [Bool.eq_iff_iff, isLineOf, List.any_eq_true]
  constructor
  · rintro ⟨key', -, hline⟩
    obtain ⟨hdropped, hprefix⟩ := (Bool.and_eq_true _ _).mp hline
    rwa [s.isPrefixOf_row_iff.mp hprefix] at hdropped
  · intro hdropped
    exact ⟨key, key.mem_all, (Bool.and_eq_true _ _).mpr ⟨hdropped, s.isPrefixOf_row_iff.mpr rfl⟩⟩

/-- The lines of the document with the keys to `keep`, without their ends. -/
def rows (s : Settings) (keep : Key → Bool) : List Text :=
  "[tokens]".toList :: (listingKeys.filter keep).map s.row ++
    [] :: "[check]".toList :: (checkKeys.filter keep).map s.row

theorem not_mem_row (s : Settings) (key : Key) : '\n' ∉ s.row key := by
  have hname : '\n' ∉ (key.name ++ " = ").toList := by cases key <;> decide
  rw [row, String.toList_append]
  exact fun hmem => (List.mem_append.mp hmem).elim hname (s.not_mem_value key)

theorem not_mem_rows {s : Settings} {keep : Key → Bool} : ∀ line ∈ s.rows keep, '\n' ∉ line := by
  have hkeys (keys : List Key) : ∀ line ∈ keys.map s.row, '\n' ∉ line := by
    intro line hline
    obtain ⟨key, -, rfl⟩ := List.mem_map.mp hline
    exact s.not_mem_row key
  intro line hline
  rcases List.mem_append.mp hline with hlisting | hcheck
  · rcases List.mem_cons.mp hlisting with rfl | hkey
    · decide
    · exact hkeys _ line hkey
  · rcases List.mem_cons.mp hcheck with rfl | hcheck
    · decide
    · rcases List.mem_cons.mp hcheck with rfl | hkey
      · decide
      · exact hkeys _ line hkey

/-- Lines that all have an end are lines with breaks between them, in front of an empty one. -/
theorem flatMap_feed (ls : List Text) :
    ls.flatMap (· ++ ['\n']) = ['\n'].intercalate (ls ++ [[]]) := by
  induction ls with
  | nil => rfl
  | cons l ls ih =>
    cases ls with
    | nil => rw [List.flatMap_singleton, List.cons_append, List.nil_append,
        List.intercalate_cons_cons, List.intercalate_singleton, List.append_nil]
    | cons l' ls =>
      rw [List.flatMap_cons, ih]
      simp only [List.cons_append, List.intercalate_cons_cons]

theorem toList_document_rows (s : Settings) (keep : Key → Bool) :
    (s.document keep).toList = ['\n'].intercalate (s.rows keep ++ [[]]) := by
  rw [← flatMap_feed]
  simp [document, toList_lines, rows]

/-- No other line is dropped. -/
theorem filter_of_not_isPrefixOf {line : Text}
    (h : ∀ key : Key, (key.name ++ " = ").toList.isPrefixOf line = false) (dropped : Key → Bool)
    (ls : List Text) :
    (line :: ls).filter (fun line => !isLineOf dropped line) =
      line :: ls.filter fun line => !isLineOf dropped line := by
  have hline : isLineOf dropped line = false := by
    rw [isLineOf, List.any_eq_false]
    intro key _
    rw [h key, Bool.and_false]
    exact Bool.false_ne_true
  exact List.filter_cons_of_pos (by rw [hline]; rfl)

/-- The rows without those of some keys. -/
theorem filter_rows (s : Settings) (dropped : Key → Bool) :
    (s.rows (fun _ => true) ++ [[]]).filter (fun line => !isLineOf dropped line) =
      s.rows (fun key => !dropped key) ++ [[]] := by
  have hkeys (keys : List Key) :
      ((keys.filter fun _ => true).map s.row).filter (fun line => !isLineOf dropped line) =
        (keys.filter fun key => !dropped key).map s.row := by
    rw [List.filter_true, List.filter_map]
    congr 2
    funext key
    exact congrArg not (s.isLineOf_row dropped key)
  have hempty : ∀ key : Key, (key.name ++ " = ").toList.isPrefixOf [] = false := by
    intro key
    cases key <;> decide
  have htokens : ∀ key : Key, (key.name ++ " = ").toList.isPrefixOf "[tokens]".toList = false := by
    intro key
    cases key <;> decide
  have hcheck : ∀ key : Key, (key.name ++ " = ").toList.isPrefixOf "[check]".toList = false := by
    intro key
    cases key <;> decide
  simp only [rows, List.append_assoc, List.cons_append, List.filter_append, hkeys,
    filter_of_not_isPrefixOf hempty, filter_of_not_isPrefixOf htokens,
    filter_of_not_isPrefixOf hcheck, List.filter_nil]

/-- **Without the lines of some keys**, the document of all settings is the one of the other
keys. -/
theorem dropKeys_toToml (s : Settings) (dropped : Key → Bool) :
    dropKeys dropped s.toToml.toList = (s.document fun key => !dropped key).toList := by
  have hfeeds : ∀ line ∈ s.rows (fun _ => true) ++ [[]], '\n' ∉ line := by
    intro line hline
    rcases List.mem_append.mp hline with hrow | hlast
    · exact not_mem_rows line hrow
    · simp [List.mem_singleton.mp hlast]
  rw [dropKeys, toToml, toList_document_rows, toList_document_rows,
    List.splitOn_intercalate '\n' hfeeds (by simp), filter_rows]

/-! ## Files -/

/-- What has been written to a path is loaded from it, if it is a document of settings. -/
theorem loadFrom_of_write {d d' : Disk} {path document : Text} {cores : Nat} {s : Settings}
    (hwrite : d.write path document = (.ok (), d')) (hread : ofToml? cores document = some s)
    (env : CommandLine.Environment) :
    Program.loadFrom (Program.onDisk d' env cores) path = .ok s := by
  have hfile := Disk.read_of_write hwrite
  have hpresent := Disk.isPresent_of_read hfile
  simp [Program.loadFrom, Program.onDisk, hpresent, hfile, hread]

/-- **Settings are read back** from the document that holds them, and each key without a line has
its default, whichever other lines are left out. So settings that have been saved to a path are
those that are loaded from it. -/
theorem ofToml?_dropKeys_and_loadFrom {s : Settings} (h : s.FitsWords) (cores : Nat) :
    (∀ dropped : Key → Bool, ofToml? cores (dropKeys dropped s.toToml.toList) =
      some (s.restrict cores fun key => !dropped key)) ∧
    ∀ {d d' : Disk} {path : Text} (env : CommandLine.Environment),
      d.write path s.toToml.toList = (.ok (), d') →
        Program.loadFrom (Program.onDisk d' env cores) path = .ok s := by
  constructor
  · intro dropped
    rw [dropKeys_toToml]
    exact ofToml?_document h cores _
  · intro d d' path env hwrite
    have hread : ofToml? cores s.toToml.toList = some s := by
      rw [toToml, ofToml?_document h, restrict_all]
    exact loadFrom_of_write hwrite hread env

/-- Largest numbers, two lines left out, and a file in a directory that is made for it. -/
theorem ofToml?_dropKeys_and_loadFrom_nested :
    let s : Settings := ⟨⟨.json, false⟩, ⟨false, 4294967295, false, 0⟩⟩
    let path := "nested/serpt.toml".toList
    let d : Disk := {}
    ofToml? 8 (dropKeys (fun key => key = .recover || key = .format) s.toToml.toList) =
        some ⟨⟨.text, false⟩, ⟨true, 4294967295, false, 0⟩⟩ ∧
      Program.loadFrom (Program.onDisk (d.write path s.toToml.toList).2 (fun _ => none) 8) path =
        .ok s := by
  intro s path d
  have hfits : s.FitsWords := ⟨by decide, by decide⟩
  have hwrite : d.write path s.toToml.toList = (.ok (), (d.write path s.toToml.toList).2) :=
    Prod.ext rfl rfl
  obtain ⟨hread, hload⟩ := ofToml?_dropKeys_and_loadFrom hfits 8
  exact ⟨hread _, hload _ hwrite⟩

end Lexis.Settings
