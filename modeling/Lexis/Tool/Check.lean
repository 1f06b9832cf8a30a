import Lexis.Lexer.Recovery
import Lexis.Tool.Failure
import Lexis.Tool.Settings

/-!
# Checking files

Each file is read to its end, or to its first error, and its diagnostics are collected, each with
a snippet of the source. A file without errors is also compared with the text that its tokens
cover. The reports of several files stand in the order of the files, and a file that cannot be
read keeps its place.

* `Check.load`: the source map of the files that can be read.
* `Check.checkFile`: the report of one file.
* `Check.checkAll`: the reports of all files.
* `Check.tally`: the totals over all reports, in which `Check.files_tally` counts each file.
* `Check.rendering`: the reports as they are printed.
-/

namespace Lexis.Check

/-- The result of checking one file. -/
structure Report where
  /-- The name of the file. -/
  name : String
  /-- The number of its tokens, the end of the input included. -/
  tokens : Nat
  /-- Its errors and warnings, in the order of the source. -/
  diagnostics : List Diagnostic
  deriving DecidableEq, Repr

namespace Report

/-- The number of errors. -/
def errors (r : Report) : Nat := r.diagnostics.countP Diagnostic.isError

/-- The number of warnings. -/
def warnings (r : Report) : Nat := r.diagnostics.length - r.errors

end Report

/-- A report, or why there is none. -/
abbrev Entry : Type := Except Failure Report

/-! ## One file -/

/-- The tokens of a text and its diagnostics. A text that is not read on after its first error has
no tokens. -/
def scan (recovering : Bool) (source : Text) : Checked (List Token × List Diagnostic) :=
  if recovering then
    (recover source Handler.empty).map fun (tokens, handler) => (tokens, handler.take.1)
  else
    (tokenize source).map fun
      | .ok tokens => (tokens, [])
      | .error e => ([], [e.toDiagnostic])

/-- The number of bytes in which two texts agree from the start. -/
def agreement (s t : Text) : Nat :=
  ((s.encode.zip t.encode).takeWhile fun (a, b) => a == b).length

/-- A number as a 32-bit word, the largest word if it does not fit. -/
def saturated (n : Nat) : Nat := min n (Checked.wordSize - 1)

/-- An error at the first byte in which the text that the tokens cover differs from the source. -/
def mismatch? (f : SourceFile) (tokens : List Token) : Option Diagnostic :=
  let rebuilt := reconstruct tokens f.content
  if rebuilt = f.content then none
  else
    let offset := agreement f.content rebuilt
    let (line, column) := f.position offset
    some {
      level := .error
      message := "token stream does not reproduce the source"
      span := ⟨offset, offset, saturated line, saturated column, f.id⟩
      notes := ["source is " ++ toString (Text.byteSize f.content) ++ " bytes, tokens cover " ++
        toString (Text.byteSize rebuilt)] }

/-- The diagnostic with a snippet of the source, unless it has one. -/
def withSnippet (lines : LineTable) (d : Diagnostic) : Diagnostic :=
  if d.snippets.isEmpty then d.addSnippet? (lines.snippet? d.span) else d

/-- The report of a source file. -/
def reportOf (o : CheckSettings) (f : SourceFile) : Checked Report :=
  (scan o.recover f.content).map fun (tokens, found) =>
    let clean := !found.any Diagnostic.isError
    let mismatch := if o.verifyRoundtrip && clean then mismatch? f tokens else none
    let lines := f.lines
    { name := f.name
      tokens := tokens.length
      diagnostics := (found ++ mismatch.toList).map (withSnippet lines) }

/-- The report of the file with a number. -/
def checkFile (o : CheckSettings) (map : SourceMap) (id : FileId) : Checked Entry :=
  match map.find id with
  | .ok f => (reportOf o f).map .ok
  | .error e => .ok (.error (.unknownFile e))

/-! ## Several files -/

/-- Adds the files that can be read to a source map. Each input gives the number of its file, or
why it cannot be read. -/
def load (map : SourceMap) : List Input → SourceMap × List (Except Failure FileId)
  | [] => (map, [])
  | input :: inputs =>
    match input.read with
    | .error failure =>
      let (map, loaded) := load map inputs
      (map, .error failure :: loaded)
    | .ok content =>
      let (id, map) := map.insert input.name content
      let (map, loaded) := load map inputs
      (map, .ok id :: loaded)

/-- The entry of a file that was loaded or not. -/
def checkLoaded (o : CheckSettings) (map : SourceMap) : Except Failure FileId → Checked Entry
  | .ok id => checkFile o map id
  | .error failure => .ok (.error failure)

/-- The reports of all files, in their order. -/
def checkAll (o : CheckSettings) (inputs : List Input) : Checked (Except Failure (List Entry)) :=
  if inputs.isEmpty then .ok (.error .noFiles)
  else if o.jobs = 0 then .ok (.error .noJobs)
  else
    let (map, loaded) := load SourceMap.empty inputs
    (loaded.mapM (checkLoaded o map)).map .ok

/-! ## Totals -/

/-- Totals over several files. -/
structure Summary where
  /-- The number of files. -/
  files : Nat := 0
  /-- The number of files with an error. -/
  failed : Nat := 0
  /-- The number of errors. -/
  errors : Nat := 0
  /-- The number of warnings. -/
  warnings : Nat := 0
  deriving DecidableEq, Repr

namespace Summary

/-- The totals with one more file, which counts as an error if it cannot be read. -/
def add (s : Summary) : Entry → Summary
  | .error _ => { s with files := s.files + 1, failed := s.failed + 1, errors := s.errors + 1 }
  | .ok r =>
    { files := s.files + 1
      failed := if 0 < r.errors then s.failed + 1 else s.failed
      errors := s.errors + r.errors
      warnings := s.warnings + r.warnings }

/-- The totals in one line. -/
def display (s : Summary) : String :=
  "checked " ++ toString s.files ++ " file(s): " ++ toString s.errors ++ " error(s), " ++
    toString s.warnings ++ " warning(s)\n"

end Summary

/-- The totals over some reports. -/
def tally (entries : List Entry) : Summary := entries.foldl Summary.add {}

theorem files_add (s : Summary) (e : Entry) : (s.add e).files = s.files + 1 := by
  cases e <;> rfl

theorem files_tally (entries : List Entry) : (tally entries).files = entries.length := by
  have key : ∀ s : Summary, (entries.foldl Summary.add s).files = s.files + entries.length := by
    induction entries with
    | nil => intro s; rfl
    | cons e entries ih =>
      intro s
      rw [List.foldl_cons, ih, files_add, List.length_cons]
      omega
  simpa [tally] using key {}

/-! ## Printing -/

/-- A report as it is printed, with at most `maxErrors` diagnostics, or all if that is zero. -/
def Report.display (maxErrors : Nat) (r : Report) : String :=
  let limit := if maxErrors = 0 then r.diagnostics.length else maxErrors
  let shown := r.diagnostics.take limit
  let rest := r.diagnostics.length - limit
  let place := "--> " ++ r.name
  String.join (shown.map fun d => place ++ "\n" ++ d.display ++ "\n\n") ++
    if rest = 0 then "" else place ++ ": " ++ toString rest ++ " more diagnostic(s) not shown\n\n"

/-- The reports as they are printed. -/
def rendering (maxErrors : Nat) (entries : List Entry) : String :=
  String.join (entries.map fun
    | .error failure => "error: " ++ failure.message ++ "\n"
    | .ok r => r.display maxErrors)

end Lexis.Check
