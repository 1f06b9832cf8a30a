import Lexis.Proofs.Feed
import Lexis.Proofs.Restart
import Lexis.Proofs.Verdict

/-!
# The file that a diagnostic names

A check numbers the files that it can read, and gives each a report. What it finds in a text it
finds without the number: the text is read as one that belongs to no file, which is written as the
number of the first. So all diagnostics of a check name the first file, and a report about another
file does not tell whose it is.

* `Lexer.Gives.file_eq`: the spans of a session name the file that the session is about.
* `Check.file_of_scan`, `Check.file_of_entryOf`: what is found in a text names no file.
* `Check.file_eq_iff_of_checkAll`: the diagnostics of a report name its file exactly if it is the
  first, or if there are none. `Check.second_file_names_first` is a report for which they do not.
-/

namespace Lexis

/-- The spans of a session name its file. -/
theorem Lexer.Gives.file_eq {source : Text} {file : FileId} {span : Span}
    (h : Gives source file span) : span.file = file := by
  obtain ⟨l, u, hreachable, hnext, rfl⟩ := h
  obtain ⟨stop, hspan⟩ := replySpan_of_next hnext
  rw [hspan]
  exact hreachable.file_eq

/-- The error of a source has a span of a session. -/
theorem gives_of_tokenize_error {source : Text} {e : LexError}
    (h : tokenize source = .ok (.error e)) : Lexer.Gives source .unknown e.span := by
  obtain ⟨ts, m, u, hrun, hnext, hreply⟩ := exists_run_of_tokenize_error h
  exact ⟨m, u, hrun.reachable .start, hnext, by rw [hreply]; rfl⟩

namespace Check

/-- What is found in a text, strictly or reading on, names no file. -/
theorem file_of_scan {recovering : Bool} {source : Text} {tokens : List Token}
    {found : List Diagnostic} (h : scan recovering source = .ok (tokens, found)) :
    ∀ d ∈ found, d.span.file = .unknown := by
  intro d hd
  cases recovering with
  | false =>
    obtain ⟨result, htokenize, heq⟩ := Checked.map_eq_ok_iff.mp h
    cases result with
    | ok strict =>
      obtain ⟨-, rfl⟩ := Prod.mk.inj heq
      contradiction
    | error e =>
      obtain ⟨-, rfl⟩ := Prod.mk.inj heq
      obtain rfl := List.mem_singleton.mp hd
      exact (gives_of_tokenize_error htokenize).file_eq
  | true =>
    obtain ⟨p, hrecover, heq⟩ := Checked.map_eq_ok_iff.mp h
    obtain ⟨ss, hsteps, rfl⟩ := Checked.map_eq_ok_iff.mp hrecover
    obtain ⟨-, rfl⟩ := Prod.mk.inj heq
    rw [Handler.take, Handler.diagnostics_emitAll] at hd
    obtain ⟨s, hs, hdiagnostic⟩ := List.mem_filterMap.mp hd
    exact ((Recovery.gives_of_steps .start hsteps s hs).2 d hdiagnostic).file_eq

/-- Nor do the diagnostics of a report. -/
theorem file_of_entryOf {recovering : Bool} {input : Input} {r : Report}
    (h : entryOf recovering input = .ok (.ok r)) : ∀ d ∈ r.diagnostics, d.span.file = .unknown := by
  cases hread : input.read with
  | error failure =>
    rw [entryOf, hread] at h
    cases Except.ok.inj h
  | ok content =>
    rw [entryOf_of_read hread] at h
    obtain ⟨r', hreport, heq⟩ := Checked.map_eq_ok_iff.mp h
    obtain rfl := Except.ok.inj heq
    obtain ⟨⟨tokens, found⟩, hscan, rfl⟩ := Checked.map_eq_ok_iff.mp hreport
    intro d hd
    obtain ⟨d', hd', rfl⟩ := List.mem_map.mp hd
    rw [span_withSnippet]
    exact file_of_scan hscan d' hd'

/-- The report of a loaded file has its name. -/
theorem name_of_entryOf {recovering : Bool} {input : Input} {content : Text} {entry : Entry}
    (hread : input.read = .ok content) (h : entryOf recovering input = .ok entry) :
    ∃ r, entry = .ok r ∧ r.name = input.name := by
  rw [entryOf_of_read hread] at h
  obtain ⟨r, hreport, rfl⟩ := Checked.map_eq_ok_iff.mp h
  obtain ⟨p, -, rfl⟩ := Checked.map_eq_ok_iff.mp hreport
  exact ⟨_, rfl, rfl⟩

/-- **All diagnostics of a check name the first file.** So those in the report of the file with a
number name that file exactly if it is the first, or if there are none. -/
theorem file_eq_iff_of_checkAll {o : CheckSettings} {inputs : List Input} {entries : List Entry}
    (h : checkAll o inputs = .ok (.ok entries)) {n : Nat} {id : FileId}
    (hid : (load .empty inputs).2[n]? = some (.ok id)) :
    ∃ r f, entries[n]? = some (.ok r) ∧ (load .empty inputs).1.find id = .ok f ∧ f.name = r.name ∧
      (∀ d ∈ r.diagnostics, d.span.file = .unknown) ∧
      ((∀ d ∈ r.diagnostics, d.span.file = id) ↔ id = .unknown ∨ r.diagnostics = []) := by
  obtain ⟨input, hinput, content, hread, hfind⟩ :=
    exists_getElem?_of_forall₂ (forall₂_load .empty inputs).flip hid
  obtain ⟨entry, hentry, hchecked⟩ := exists_getElem?_of_forall₂ (forall₂_of_checkAll h) hinput
  obtain ⟨r, rfl, hname⟩ := name_of_entryOf hread hchecked
  have hunknown := file_of_entryOf hchecked
  refine ⟨r, _, hentry, hfind, hname.symm, hunknown, fun hall => ?_, ?_⟩
  · cases hdiagnostics : r.diagnostics with
    | nil => exact .inr rfl
    | cons d ds =>
      have hmem : d ∈ r.diagnostics := by rw [hdiagnostics]; exact List.mem_cons_self
      exact .inl ((hall d hmem).symm.trans (hunknown d hmem))
  · rintro (rfl | hnil)
    · exact hunknown
    · rw [hnil]
      exact fun d hd => nomatch hd

/-- The second of two files that can be read, behind one that cannot: its stray bracket is put down
to the first. -/
theorem file_eq_iff_of_checkAll_stray_bracket :
    ∃ entries r, checkAll { jobs := 1 }
        [⟨"a", .error .notFound⟩, ⟨"b", .ok ['x']⟩, ⟨"c", .ok [')']⟩] = .ok (.ok entries) ∧
      entries[2]? = some (.ok r) ∧ r.diagnostics ≠ [] ∧
      ((∀ d ∈ r.diagnostics, d.span.file = ⟨1⟩) ↔
        (⟨1⟩ : FileId) = .unknown ∨ r.diagnostics = []) := by
  have h : checkAll { jobs := 1 }
      [⟨"a", .error .notFound⟩, ⟨"b", .ok ['x']⟩, ⟨"c", .ok [')']⟩] = .ok (.ok [
        .error (.unreadable "a" .notFound),
        .ok ⟨"b", 2, []⟩,
        .ok ⟨"c", 2, [withSnippet (LineTable.ofText [')'])
          (unmatchedCloserWarning ⟨.symbol .rightParen, [')'], ⟨0, 1, 1, 0, ⟨0⟩⟩, true⟩)]⟩]) := by
    decide +kernel
  have hid : (load .empty [⟨"a", .error .notFound⟩, ⟨"b", .ok ['x']⟩, ⟨"c", .ok [')']⟩]).2[2]? =
      some (.ok ⟨1⟩) := by decide
  obtain ⟨r, f, hr, -, -, -, hiff⟩ := file_eq_iff_of_checkAll h hid
  obtain rfl := Except.ok.inj (Option.some.inj hr)
  exact ⟨_, _, h, rfl, List.cons_ne_nil _ _, hiff⟩

/-- An empty file and one with a character that no rule takes: the report of the second file names
the first as the place of its error. -/
theorem second_file_names_first :
    ¬ ∀ (o : CheckSettings) (inputs : List Input) (entries : List Entry) (n : Nat) (id : FileId)
        (r : Report), checkAll o inputs = .ok (.ok entries) →
      (load .empty inputs).2[n]? = some (.ok id) → entries[n]? = some (.ok r) →
      ∀ d ∈ r.diagnostics, d.span.file = id := by
  have hchecked : checkAll { jobs := 1 } [⟨"a", .ok []⟩, ⟨"b", .ok ['$']⟩] = .ok (.ok [
      .ok ⟨"a", 1, []⟩,
      .ok ⟨"b", 1, [withSnippet (LineTable.ofText ['$'])
        (LexError.toDiagnostic ⟨.unrecognized '$', ⟨0, 1, 1, 0, ⟨0⟩⟩⟩)]⟩]) := by
    decide +kernel
  intro h
  have hfile := h _ _ _ 1 ⟨1⟩ _ hchecked (by decide) rfl _ List.mem_cons_self
  rw [span_withSnippet] at hfile
  exact absurd hfile (by decide)

end Check

end Lexis
