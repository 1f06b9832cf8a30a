import Lexis.Proofs.Verdict

/-!
# The reports of a check

A check gives each file an entry, in the order of the files: why the file cannot be read, or the
report of its text. Files are numbered as they are read, and those that cannot be read have no
number, so a report finds its text through a number that is not its place in the list. That the
numbers fit is what makes each entry that of its own file. The totals count the entries and what
is in them, and how many diagnostics are printed makes no difference to either.

* `Check.getElem?_load`: the number of a file is that of the files that were read before it.
* `Check.Describes`: an entry is that of its input alone. `Check.describes_of_entryOf` says that
  the entry of an input is such a one.
* `Check.Totals`: what the totals count. `Check.totals_of_describes` says that they do.
* `Check.Reported`: the entries and the totals of a check. `Check.exists_reported_of_byteSize_lt`
  says that every check of short files has them.
-/

namespace Lexis.Check

open Diagnostic

/-! ## Numbers of files -/

/-- **The number of a file** is that of the files that were read before it. -/
theorem getElem?_load {inputs : List Input} {n : Nat} {input : Input} {content : Text}
    (hn : inputs[n]? = some input) (hcontent : input.content = .ok content) (map : SourceMap) :
    (load map inputs).2[n]? =
      some (.ok ⟨map.size + (inputs.take n).countP (·.content.isOk)⟩) := by
  induction inputs generalizing map n with
  | nil => contradiction
  | cons first inputs ih =>
    cases n with
    | zero =>
      obtain rfl := Option.some.inj hn
      rw [load, Input.read_eq_ok_iff.mpr hcontent]
      rfl
    | succ n =>
      rw [List.take_succ_cons, List.countP_cons]
      cases hfirst : first.content with
      | error e =>
        have hread : first.read = .error (.unreadable first.name e) := by rw [Input.read, hfirst]
        rw [load, hread]
        exact ih hn map
      | ok text =>
        rw [load, Input.read_eq_ok_iff.mpr hfirst]
        have hnext := ih hn (map.insert first.name text).2
        rw [SourceMap.size_insert, Nat.add_right_comm] at hnext
        exact hnext

/-! ## Entries -/

/-- An entry describes its input: it is what the input alone makes of it. -/
structure Describes (o : CheckSettings) (input : Input) (entry : Entry) : Prop where
  /-- It is a failure exactly if the input cannot be read, and then that of reading it. -/
  failure : ∀ f, entry = .error f ↔ ∃ e, input.content = .error e ∧ f = .unreadable input.name e
  /-- Otherwise it reports what is found in the text, under the name of the input. -/
  report : ∀ content, input.content = .ok content → ∃ tokens found,
    scan o.recover content = .ok (tokens, found) ∧
      entry = .ok ⟨input.name, tokens.length, found.map (withSnippet (LineTable.ofText content))⟩
  /-- A check of the input by itself gives no other. -/
  alone : checkAll o [input] = .ok (.ok [entry])

/-- The entry of an input describes it. -/
theorem describes_of_entryOf {o : CheckSettings} {input : Input} {entry : Entry}
    (hjobs : 0 < o.jobs) (h : entryOf o.recover input = .ok entry) : Describes o input entry := by
  have halone : checkAll o [input] = .ok (.ok [entry]) := by
    rw [checkAll_eq (List.cons_ne_nil _ _) hjobs, List.mapM_cons, h]
    rfl
  cases hcontent : input.content with
  | error e =>
    have hread : input.read = .error (.unreadable input.name e) := by rw [Input.read, hcontent]
    rw [entryOf, hread] at h
    obtain rfl := Except.ok.inj h
    refine ⟨fun f => ⟨fun hf => ⟨e, hcontent, (Except.error.inj hf).symm⟩, ?_⟩, ?_, halone⟩
    · rintro ⟨e', he', rfl⟩
      obtain rfl := Except.error.inj (hcontent.symm.trans he')
      rfl
    · intro content hok
      cases hcontent.symm.trans hok
  | ok content =>
    rw [entryOf_of_read (Input.read_eq_ok_iff.mpr hcontent)] at h
    obtain ⟨r, hreport, rfl⟩ := Checked.map_eq_ok_iff.mp h
    obtain ⟨⟨tokens, found⟩, hscan, rfl⟩ := Checked.map_eq_ok_iff.mp hreport
    refine ⟨fun f => ⟨fun hf => ?_, ?_⟩, ?_, halone⟩
    · contradiction
    · rintro ⟨e, he, -⟩
      cases hcontent.symm.trans he
    · intro content' hok
      obtain rfl := Except.ok.inj (hcontent.symm.trans hok)
      exact ⟨tokens, found, hscan, rfl⟩

namespace Describes

variable {o : CheckSettings} {input : Input} {entry : Entry}

/-- An entry is a report exactly if its input can be read. -/
theorem isOk_eq (h : Describes o input entry) : input.content.isOk = entry.isOk := by
  cases hcontent : input.content with
  | error e =>
    obtain rfl := (h.failure _).mpr ⟨e, hcontent, rfl⟩
    rfl
  | ok content =>
    obtain ⟨tokens, found, -, rfl⟩ := h.report content hcontent
    rfl

/-- No entry is of a file that is not there. -/
theorem ne_unknownFile (h : Describes o input entry) (e : FileNotFound) :
    entry ≠ .error (.unknownFile e) := by
  intro heq
  obtain ⟨e', -, hfailure⟩ := (h.failure _).mp heq
  contradiction

end Describes

/-! ## Totals -/

/-- The reports among some entries. -/
def reports (entries : List Entry) : List Report := entries.filterMap Except.toOption

/-- The diagnostics in all reports. -/
def diagnostics (entries : List Entry) : List Diagnostic :=
  (reports entries).flatMap Report.diagnostics

@[simp] theorem reports_cons_error (failure : Failure) (entries : List Entry) :
    reports (.error failure :: entries) = reports entries := rfl

@[simp] theorem reports_cons_ok (r : Report) (entries : List Entry) :
    reports (.ok r :: entries) = r :: reports entries := rfl

@[simp] theorem diagnostics_cons_error (failure : Failure) (entries : List Entry) :
    diagnostics (.error failure :: entries) = diagnostics entries := rfl

@[simp] theorem diagnostics_cons_ok (r : Report) (entries : List Entry) :
    diagnostics (.ok r :: entries) = r.diagnostics ++ diagnostics entries := rfl

/-- The totals count files, failures to read and what is in the reports. -/
structure Totals (inputs : List Input) (entries : List Entry) (s : Summary) : Prop where
  /-- Every file counts. -/
  files : s.files = inputs.length
  /-- A file fails if it cannot be read, or if there is an error in its report. -/
  failed : s.failed = inputs.countP (!·.content.isOk) +
    (reports entries).countP fun r => r.diagnostics.any isError
  /-- A file that cannot be read counts as an error beside those in the reports. -/
  errors : s.errors = inputs.countP (!·.content.isOk) + (diagnostics entries).countP isError
  /-- All other diagnostics are warnings. -/
  warnings : s.warnings = (diagnostics entries).countP (·.level = .warning)

/-- What an entry adds to the errors. -/
def errorsOf : Entry → Nat
  | .error _ => 1
  | .ok r => r.diagnostics.countP isError

/-- What an entry adds to the warnings. -/
def warningsOf : Entry → Nat
  | .error _ => 0
  | .ok r => r.diagnostics.countP (·.level = .warning)

theorem errors_add (s : Summary) (e : Entry) : (s.add e).errors = s.errors + errorsOf e := by
  cases e <;> rfl

/-- A diagnostic that is no error is a warning. -/
theorem warnings_eq (r : Report) : r.warnings = r.diagnostics.countP (·.level = .warning) := by
  have hsplit := List.length_eq_countP_add_countP isError (l := r.diagnostics)
  have hcongr : r.diagnostics.countP (fun d => !d.isError) =
      r.diagnostics.countP (·.level = .warning) := by
    refine List.countP_congr fun d _ => ?_
    cases hlevel : d.level <;> simp [isError, hlevel]
  simp only [Bool.not_eq_true, Bool.decide_eq_false] at hsplit
  rw [Report.warnings, Report.errors]
  omega

theorem warnings_add (s : Summary) (e : Entry) :
    (s.add e).warnings = s.warnings + warningsOf e := by
  cases e with
  | error failure => rfl
  | ok r => exact congrArg (s.warnings + ·) (warnings_eq r)

theorem sum_errorsOf (entries : List Entry) : (entries.map errorsOf).sum =
    entries.countP (!·.isOk) + (diagnostics entries).countP isError := by
  induction entries with
  | nil => rfl
  | cons e entries ih =>
    rw [List.map_cons, List.sum_cons, ih]
    cases e with
    | error failure =>
      rw [errorsOf, diagnostics_cons_error, List.countP_cons_of_pos rfl]
      omega
    | ok r =>
      rw [errorsOf, diagnostics_cons_ok, List.countP_append,
        List.countP_cons_of_neg Bool.false_ne_true]
      omega

theorem sum_warningsOf (entries : List Entry) :
    (entries.map warningsOf).sum = (diagnostics entries).countP (·.level = .warning) := by
  induction entries with
  | nil => rfl
  | cons e entries ih =>
    rw [List.map_cons, List.sum_cons, ih]
    cases e with
    | error failure => rw [warningsOf, diagnostics_cons_error, Nat.zero_add]
    | ok r => rw [warningsOf, diagnostics_cons_ok, List.countP_append]

/-- A report is counted as failed if there is an error in it. -/
theorem isFailed_ok (r : Report) : isFailed (.ok r) = r.diagnostics.any isError := by
  rw [isFailed, Report.errors, Bool.eq_iff_iff, decide_eq_true_iff, List.countP_pos_iff,
    List.any_eq_true]

theorem countP_isFailed (entries : List Entry) : entries.countP isFailed =
    entries.countP (!·.isOk) + (reports entries).countP fun r => r.diagnostics.any isError := by
  induction entries with
  | nil => rfl
  | cons e entries ih =>
    cases e with
    | error failure =>
      rw [reports_cons_error, List.countP_cons_of_pos rfl, List.countP_cons_of_pos rfl, ih]
      omega
    | ok r =>
      rw [reports_cons_ok, List.countP_cons, isFailed_ok, ih,
        List.countP_cons_of_neg Bool.false_ne_true, List.countP_cons]
      omega

/-- **The totals of entries** that describe their inputs. -/
theorem totals_of_describes {o : CheckSettings} {inputs : List Input} {entries : List Entry}
    (h : List.Forall₂ (Describes o) inputs entries) : Totals inputs entries (tally entries) := by
  have hunread : inputs.countP (!·.content.isOk) = entries.countP (!·.isOk) :=
    countP_eq_of_forall₂ (h.imp fun _ _ hdescribes => congrArg Bool.not hdescribes.isOk_eq)
  refine ⟨?_, ?_, ?_, ?_⟩
  · rw [files_tally, h.length_eq]
  · rw [failed_tally, countP_isFailed, hunread]
  · rw [field_tally errors_add rfl, sum_errorsOf, hunread]
  · rw [field_tally warnings_add rfl, sum_warningsOf]

/-! ## Checks -/

/-- The entries of a check, what they are about and what is counted in them. -/
structure Reported (o : CheckSettings) (inputs : List Input) (entries : List Entry) : Prop where
  /-- Each entry describes its own input. -/
  describes : List.Forall₂ (Describes o) inputs entries
  /-- No file is looked for that is not there. -/
  known : ∀ e, Except.error (.unknownFile e) ∉ entries
  /-- A file that can be read is numbered by those that were read before it. -/
  loaded : ∀ (n : Nat) (input : Input) content, inputs[n]? = some input →
    input.content = .ok content → (load .empty inputs).2[n]? =
      some (.ok ⟨(inputs.take n).countP (·.content.isOk)⟩)
  /-- The totals count the entries. -/
  totals : Totals inputs entries (tally entries)
  /-- How many diagnostics are printed changes neither the entries nor the totals. -/
  printed : ∃ result, ∀ m, checkAll { o with maxErrors := m } inputs = .ok (.ok entries) ∧
    Program.runCheck { o with maxErrors := m } inputs =
      .ok (Outcome.of result (tally entries).display (rendering m entries))

/-- **Reports match files one to one**: a check of files of less than `2 ^ 29` bytes each, with at
least one job, gives each file the entry that it has by itself, in the order of the files, and
counts what is in the entries. -/
theorem exists_reported_of_byteSize_lt {o : CheckSettings} {inputs : List Input}
    (hne : inputs ≠ []) (hjobs : 0 < o.jobs) (hshort : ∀ input ∈ inputs, input.Short) :
    ∃ entries, checkAll o inputs = .ok (.ok entries) ∧ Reported o inputs entries := by
  obtain ⟨entries, hentries, hall⟩ := exists_checkAll hne hjobs hshort
  have hdescribes : List.Forall₂ (Describes o) inputs entries :=
    hall.imp fun _ _ h => describes_of_entryOf hjobs h
  refine ⟨entries, hentries, hdescribes, ?_, ?_, totals_of_describes hdescribes, ?_⟩
  · intro e hmem
    obtain ⟨n, hn⟩ := List.mem_iff_getElem?.mp hmem
    obtain ⟨input, -, h⟩ := exists_getElem?_of_forall₂ hdescribes.flip hn
    exact h.ne_unknownFile e rfl
  · intro n input content hn hcontent
    have hempty : SourceMap.empty.size = 0 := rfl
    rw [getElem?_load hn hcontent, hempty, Nat.zero_add]
  · have hsame : ∀ m, checkAll { o with maxErrors := m } inputs = .ok (.ok entries) := by
      intro m
      rw [← hentries, checkAll_eq hne hjobs, checkAll_eq (o := { o with maxErrors := m }) hne hjobs]
    let failed := (tally entries).failed
    refine ⟨if failed = 0 then .ok () else .error (.rejected failed), fun m => ⟨hsame m, ?_⟩⟩
    rw [Program.runCheck, hsame m]
    rfl

/-- A file that is not there, one with a character that no rule takes, and one with a stray bracket:
two of the three fail, with two errors and a warning. -/
theorem exists_reported_of_byteSize_lt_two_errors_one_warning :
    ∃ entries, checkAll { jobs := 2 }
        [⟨"a", .error .notFound⟩, ⟨"b", .ok ['x', '$']⟩, ⟨"c", .ok [')']⟩] = .ok (.ok entries) ∧
      tally entries = ⟨3, 2, 2, 1⟩ ∧
      Reported { jobs := 2 }
        [⟨"a", .error .notFound⟩, ⟨"b", .ok ['x', '$']⟩, ⟨"c", .ok [')']⟩] entries := by
  have hreported : ∃ entries, checkAll { jobs := 2 }
        [⟨"a", .error .notFound⟩, ⟨"b", .ok ['x', '$']⟩, ⟨"c", .ok [')']⟩] = .ok (.ok entries) ∧
      Reported { jobs := 2 }
        [⟨"a", .error .notFound⟩, ⟨"b", .ok ['x', '$']⟩, ⟨"c", .ok [')']⟩] entries :=
    exists_reported_of_byteSize_lt (by decide) (by decide) (by decide)
  have htally : (checkAll { jobs := 2 }
      [⟨"a", .error .notFound⟩, ⟨"b", .ok ['x', '$']⟩, ⟨"c", .ok [')']⟩]).map (·.map tally) =
        .ok (.ok ⟨3, 2, 2, 1⟩) := by
    decide +kernel
  obtain ⟨entries, hentries, hreported⟩ := hreported
  rw [hentries] at htally
  exact ⟨entries, hentries, Except.ok.inj (Except.ok.inj htally), hreported⟩

end Lexis.Check
