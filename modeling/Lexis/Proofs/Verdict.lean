import Mathlib.Algebra.GroupWithZero.Nat
import Mathlib.Data.List.Forall2
import Lexis.Proofs.Agreement
import Lexis.Tool.Program

/-!
# The verdict on files

Whether a check of files succeeds is a matter of the files alone: it fails if some file cannot be
read or has a lexical error. The settings decide how much is found and shown, not what is accepted.
That the tokens are compared with the source never shows: where no error is found, they cover it.

* `Check.forall₂_load`: every input is loaded under its own name, or keeps its failure.
* `Check.exists_finds`: what is found in a text, strictly or reading on, against the outcome of the
  strict run.
* `Check.reportOf_eq`, `Check.checkAll_eq`: the reports, with the comparison of tokens left out.
* `Check.field_tally`, `Check.failed_tally`: a total is the sum of what the entries add to it, and
  the files that are counted as failed.
* `Check.Judged`: what the verdict and the reports have to do with the files.
  `Check.judged_of_byteSize_lt` says that every check of short files is such a one.
-/

namespace Lexis

/-! ## Lists of computations -/

/-- If each computation has an answer, they have them together. -/
theorem Checked.exists_mapM {α β : Type} {f : α → Checked β} {xs : List α}
    (h : ∀ x ∈ xs, ∃ y, f x = .ok y) :
    ∃ ys, xs.mapM f = .ok ys ∧ List.Forall₂ (fun x y => f x = .ok y) xs ys := by
  induction xs with
  | nil => exact ⟨[], rfl, .nil⟩
  | cons x xs ih =>
    obtain ⟨y, hy⟩ := h x List.mem_cons_self
    obtain ⟨ys, hys, hall⟩ := ih fun x' hx' => h x' (List.mem_cons_of_mem _ hx')
    refine ⟨y :: ys, ?_, .cons hy hall⟩
    rw [List.mapM_cons, hy, hys]
    rfl

/-- Answers given together are given one by one. -/
theorem Checked.forall₂_of_mapM {α β : Type} {f : α → Checked β} {xs : List α} {ys : List β}
    (h : xs.mapM f = .ok ys) : List.Forall₂ (fun x y => f x = .ok y) xs ys := by
  induction xs generalizing ys with
  | nil =>
    obtain rfl := Except.ok.inj h
    exact .nil
  | cons x xs ih =>
    rw [List.mapM_cons] at h
    cases hy : f x with
    | error fault => simp [hy, bind, Except.bind] at h
    | ok y =>
      cases hys : xs.mapM f with
      | error fault => simp [hy, hys, bind, Except.bind] at h
      | ok ys' =>
        simp only [hy, hys, bind, Except.bind] at h
        obtain rfl := Except.ok.inj h
        exact .cons hy (ih hys)

/-- Computations that agree one by one agree together. -/
theorem Checked.mapM_congr {α β γ : Type} {f : α → Checked γ} {g : β → Checked γ} {xs : List α}
    {ys : List β} (h : List.Forall₂ (fun x y => f x = g y) xs ys) : xs.mapM f = ys.mapM g := by
  induction h with
  | nil => rfl
  | cons hxy _ ih => rw [List.mapM_cons, List.mapM_cons, hxy, ih]

/-- What stands in the place of an element. -/
theorem exists_getElem?_of_forall₂ {α β : Type} {R : α → β → Prop} {xs : List α} {ys : List β}
    (h : List.Forall₂ R xs ys) {n : Nat} {x : α} (hx : xs[n]? = some x) :
    ∃ y, ys[n]? = some y ∧ R x y := by
  induction h generalizing n with
  | nil => contradiction
  | cons hxy _ ih =>
    cases n with
    | zero =>
      obtain rfl := Option.some.inj hx
      exact ⟨_, rfl, hxy⟩
    | succ n => exact ih hx

/-- Elements that pass tests of the same outcome are counted alike. -/
theorem countP_eq_of_forall₂ {α β : Type} {p : α → Bool} {q : β → Bool} {xs : List α} {ys : List β}
    (h : List.Forall₂ (fun x y => p x = q y) xs ys) : xs.countP p = ys.countP q := by
  induction h with
  | nil => rfl
  | cons hxy _ ih => rw [List.countP_cons, List.countP_cons, ih, hxy]

/-! ## Files in a source map -/

namespace SourceMap

theorem find_insert_self (m : SourceMap) (name : String) (content : Text) :
    (m.insert name content).2.find (m.insert name content).1 =
      .ok ⟨(m.insert name content).1, name, content⟩ := by
  rw [find, get?_insert_self]
  rfl

/-- A file that is found stays where it is. -/
theorem find_insert_of_ok {m : SourceMap} {id : FileId} {f : SourceFile} (h : m.find id = .ok f)
    (name : String) (content : Text) : (m.insert name content).2.find id = .ok f := by
  have hlt : id.index < m.size := by
    by_contra hle
    have hnone : m.get? id = none := List.getElem?_eq_none (Nat.not_lt.mp hle)
    rw [find, hnone] at h
    contradiction
  rw [find, get?_insert_of_lt m name content hlt]
  exact h

end SourceMap

namespace Input

theorem read_eq_ok_iff {input : Input} {text : Text} :
    input.read = .ok text ↔ input.content = .ok text := by
  rw [read]
  cases input.content <;> simp

/-- The text of the input, if it can be read, has less than `2 ^ 29` bytes. -/
def Short (input : Input) : Prop :=
  ∀ text, input.content = .ok text → Text.byteSize text < 2 ^ 29

instance (input : Input) : Decidable input.Short :=
  match h : input.content with
  | .error _ => isTrue fun _ htext => nomatch h.symm.trans htext
  | .ok text =>
    decidable_of_iff (Text.byteSize text < 2 ^ 29)
      ⟨fun hsize _ htext => Except.ok.inj (h.symm.trans htext) ▸ hsize, fun hshort => hshort text h⟩

/-- Whether the input cannot be read or has a lexical error. -/
def fails (input : Input) : Bool :=
  match input.content with
  | .error _ => true
  | .ok text =>
    match tokenize text with
    | .ok (.error _) => true
    | _ => false

end Input

namespace Check

open Diagnostic

/-! ## Loading -/

/-- Loading adds files and takes none away. -/
theorem find_load {map : SourceMap} {id : FileId} {f : SourceFile} (h : map.find id = .ok f)
    (inputs : List Input) : (load map inputs).1.find id = .ok f := by
  induction inputs generalizing map with
  | nil => exact h
  | cons input inputs ih =>
    unfold load
    split
    · exact ih h
    · exact ih (SourceMap.find_insert_of_ok h _ _)

/-- What becomes of an input: the number of the file with its name and text, or its failure. -/
def Loads (map : SourceMap) (input : Input) : Except Failure FileId → Prop
  | .ok id => ∃ content, input.read = .ok content ∧ map.find id = .ok ⟨id, input.name, content⟩
  | .error failure => input.read = .error failure

/-- **Every input is loaded under its own name**, or keeps its failure, in its place. -/
theorem forall₂_load (map : SourceMap) (inputs : List Input) :
    List.Forall₂ (Loads (load map inputs).1) inputs (load map inputs).2 := by
  induction inputs generalizing map with
  | nil => exact .nil
  | cons input inputs ih =>
    unfold load
    split
    · rename_i failure hread
      exact .cons hread (ih map)
    · rename_i content hread
      have hfind := find_load (map.find_insert_self input.name content) inputs
      exact .cons ⟨content, hread, hfind⟩ (ih _)

/-! ## What is found in a text -/

/-- Where strict reading fails, its error is the first that is found. Where it succeeds, the same
tokens are found and no error. -/
def Finds : Except LexError (List Token) → List Token × List Diagnostic → Prop
  | .ok strict, (tokens, found) => tokens = strict ∧ errors found = []
  | .error e, (_, found) => (errors found).head? = some e.toDiagnostic

/-- **Strictly or reading on**, a text of less than `2 ^ 29` bytes is read with an answer, and what
is found agrees with the outcome of the strict run. -/
theorem exists_finds (source : Text) (hsize : Text.byteSize source < 2 ^ 29) :
    ∃ result, tokenize source = .ok result ∧
      ∀ recovering, ∃ found, scan recovering source = .ok found ∧ Finds result found := by
  have hstart := Lexer.stands_ofSource source .unknown
  obtain ⟨turns, hturns⟩ := hstart.exists_turns hsize
  obtain ⟨ts, m, u, hrun, hnext, hstops, htokens, -⟩ := Lexer.exists_run_of_turns hturns
  have htokenize : tokenize source = .ok (u.reply.map fun t => ts ++ [t]) := by
    rw [tokenize, tokenizeIn, hturns, ← htokens]
    rfl
  refine ⟨_, htokenize, fun recovering => ?_⟩
  rw [scan]
  cases hreply : u.reply with
  | ok t =>
    cases recovering with
    | false =>
      rw [htokenize, hreply]
      exact ⟨_, rfl, rfl, rfl⟩
    | true =>
      have heof : t.isEof = true := by simpa [Lexer.stops, hreply] using hstops
      obtain ⟨handler, hrecover, herrors⟩ :=
        Recovery.recover_of_run hrun (Recovery.steps_of_eof hnext hreply heof)
      rw [hrecover]
      exact ⟨_, rfl, rfl, herrors.trans (Recovery.errors_ofToken_cons m u t [])⟩
  | error e =>
    cases recovering with
    | false =>
      rw [htokenize, hreply]
      exact ⟨_, rfl, rfl⟩
    | true =>
      obtain ⟨ss, hsteps, hhead, -⟩ :=
        Recovery.exists_steps_of_error (hrun.stands hstart) hsize hnext hreply
      obtain ⟨handler, hrecover, herrors⟩ := Recovery.recover_of_run hrun hsteps
      rw [hrecover]
      exact ⟨_, rfl, (congrArg List.head? herrors).trans hhead⟩

/-- The tokens of a strict run put together are the source. -/
theorem reconstruct_of_tokenize {source : Text} {tokens : List Token}
    (h : tokenize source = .ok (.ok tokens)) : reconstruct tokens source = source := by
  obtain ⟨ts, m, hrun, hrest, rfl⟩ := exists_run_of_tokenize h
  obtain ⟨hread, hspans⟩ :=
    (hrun.stands (Lexer.stands_ofSource source .unknown)).spans_eofToken hrest
  have heof : m.eofToken.sourceText source = [] := by simpa using hspans.sourceText_eq []
  rw [reconstruct_eq, List.flatMap_append, List.flatMap_singleton, heof, List.append_nil]
  exact hread

/-- Where no error is found, strictly or reading on, the tokens put together are the source. -/
theorem reconstruct_of_scan {recovering : Bool} {source : Text} {tokens : List Token}
    {found : List Diagnostic} (hscan : scan recovering source = .ok (tokens, found))
    (hclean : errors found = []) : reconstruct tokens source = source := by
  cases recovering with
  | false =>
    obtain ⟨result, htokenize, heq⟩ := Checked.map_eq_ok_iff.mp hscan
    cases result with
    | error e =>
      obtain ⟨-, rfl⟩ := Prod.mk.inj heq
      contradiction
    | ok strict =>
      obtain ⟨rfl, -⟩ := Prod.mk.inj heq
      exact reconstruct_of_tokenize htokenize
  | true =>
    obtain ⟨p, hrecover, heq⟩ := Checked.map_eq_ok_iff.mp hscan
    obtain ⟨ss, hsteps, rfl⟩ := Checked.map_eq_ok_iff.mp hrecover
    obtain ⟨rfl, rfl⟩ := Prod.mk.inj heq
    rw [Handler.take, Handler.diagnostics_emitAll] at hclean
    exact ((Recovery.reads_of_steps hsteps).accounts
      (Lexer.stands_ofSource source .unknown)).append_reconstruct hclean

/-! ## Reports -/

/-- The report of a text, without the comparison of its tokens with it. -/
def bareReport (recovering : Bool) (name : String) (content : Text) : Checked Report :=
  (scan recovering content).map fun (tokens, found) =>
    ⟨name, tokens.length, found.map (withSnippet (LineTable.ofText content))⟩

theorem any_isError_eq_false_iff (found : List Diagnostic) :
    found.any isError = false ↔ errors found = [] := by
  simp [errors, List.filter_eq_nil_iff]

/-- **The comparison of the tokens never shows**: it finds nothing where there is no error, and is
not made where there is one. -/
theorem reportOf_eq (o : CheckSettings) (f : SourceFile) :
    reportOf o f = bareReport o.recover f.name f.content := by
  rw [reportOf, bareReport]
  cases hscan : scan o.recover f.content with
  | error fault => rfl
  | ok p =>
    obtain ⟨tokens, found⟩ := p
    have hmismatch :
        (if o.verifyRoundtrip && !found.any isError then mismatch? f tokens else none) = none := by
      cases hany : found.any isError with
      | true => rw [Bool.not_true, Bool.and_false, if_neg Bool.false_ne_true]
      | false =>
        have hclean := (any_isError_eq_false_iff found).mp hany
        have hnone : mismatch? f tokens = none := if_pos (reconstruct_of_scan hscan hclean)
        rw [hnone, ite_self]
    simp only [Except.map, hmismatch, Option.toList_none, List.append_nil]
    rfl

/-- The entry of an input by itself. -/
def entryOf (recovering : Bool) (input : Input) : Checked Entry :=
  match input.read with
  | .ok content => (bareReport recovering input.name content).map .ok
  | .error failure => .ok (.error failure)

theorem entryOf_of_read {input : Input} {content : Text} (h : input.read = .ok content)
    (recovering : Bool) :
    entryOf recovering input = (bareReport recovering input.name content).map .ok := by
  rw [entryOf, h]

/-- A loaded input is checked as by itself. -/
theorem checkLoaded_of_loads {o : CheckSettings} {map : SourceMap} {input : Input}
    {loaded : Except Failure FileId} (h : Loads map input loaded) :
    checkLoaded o map loaded = entryOf o.recover input := by
  cases loaded with
  | error failure =>
    have hread : input.read = .error failure := h
    rw [entryOf, hread]
    rfl
  | ok id =>
    obtain ⟨content, hread, hfind⟩ := h
    rw [checkLoaded, checkFile, hfind, entryOf_of_read hread]
    exact congrArg (Except.map Except.ok) (reportOf_eq o _)

/-- **The entries of a check**: each is that of its input by itself. -/
theorem checkAll_eq {o : CheckSettings} {inputs : List Input} (hne : inputs ≠ [])
    (hjobs : 0 < o.jobs) :
    checkAll o inputs = (inputs.mapM (entryOf o.recover)).map .ok := by
  have hentries : inputs.mapM (entryOf o.recover) =
      (load .empty inputs).2.mapM (checkLoaded o (load .empty inputs).1) :=
    Checked.mapM_congr ((forall₂_load .empty inputs).imp fun _ _ h => (checkLoaded_of_loads h).symm)
  rw [checkAll, if_neg (by simpa using hne), if_neg (Nat.ne_of_gt hjobs), hentries]

/-- The entries of a check are those of its inputs, in their order. -/
theorem forall₂_of_checkAll {o : CheckSettings} {inputs : List Input} {entries : List Entry}
    (h : checkAll o inputs = .ok (.ok entries)) :
    List.Forall₂ (fun input entry => entryOf o.recover input = .ok entry) inputs entries := by
  have hne : inputs ≠ [] := by
    rintro rfl
    have hnone : checkAll o [] = .ok (.error .noFiles) := rfl
    exact nomatch Except.ok.inj (hnone.symm.trans h)
  have hjobs : 0 < o.jobs := by
    refine Nat.pos_of_ne_zero fun hzero => ?_
    rw [checkAll, if_neg (by simpa using hne), if_pos hzero] at h
    exact nomatch Except.ok.inj h
  rw [checkAll_eq hne hjobs] at h
  obtain ⟨entries', hentries, heq⟩ := Checked.map_eq_ok_iff.mp h
  obtain rfl := Except.ok.inj heq
  exact Checked.forall₂_of_mapM hentries

/-- What the entry of an input that can be read reports. -/
theorem exists_entryOf_of_read {input : Input} {content : Text} (hshort : input.Short)
    (h : input.read = .ok content) :
    ∃ result, tokenize content = .ok result ∧ ∀ recovering, ∃ tokens found,
      scan recovering content = .ok (tokens, found) ∧ Finds result (tokens, found) ∧
      entryOf recovering input = .ok (.ok ⟨input.name, tokens.length,
        found.map (withSnippet (LineTable.ofText content))⟩) := by
  obtain ⟨result, htokenize, hfinds⟩ :=
    exists_finds content (hshort content (Input.read_eq_ok_iff.mp h))
  refine ⟨result, htokenize, fun recovering => ?_⟩
  obtain ⟨⟨tokens, found⟩, hscan, hfound⟩ := hfinds recovering
  refine ⟨tokens, found, hscan, hfound, ?_⟩
  rw [entryOf_of_read h, bareReport, hscan]
  rfl

/-- A short input has an entry. -/
theorem exists_entryOf {input : Input} (hshort : input.Short) (recovering : Bool) :
    ∃ entry, entryOf recovering input = .ok entry := by
  cases hread : input.read with
  | error failure => exact ⟨.error failure, by rw [entryOf, hread]⟩
  | ok content =>
    obtain ⟨_, -, hreport⟩ := exists_entryOf_of_read hshort hread
    obtain ⟨tokens, found, -, -, hentry⟩ := hreport recovering
    exact ⟨_, hentry⟩

/-! ## Files that fail -/

/-- Whether an entry is counted as a failed file. -/
def isFailed : Entry → Bool
  | .error _ => true
  | .ok r => 0 < r.errors

theorem failed_add (s : Summary) (e : Entry) :
    (s.add e).failed = s.failed + if isFailed e then 1 else 0 := by
  cases e with
  | error failure => rfl
  | ok r =>
    simp only [Summary.add, isFailed, decide_eq_true_eq]
    split <;> rfl

/-- **A total** is the sum of what the entries add to it. -/
theorem field_tally {field : Summary → Nat} {amount : Entry → Nat}
    (hadd : ∀ s e, field (s.add e) = field s + amount e) (hzero : field {} = 0)
    (entries : List Entry) : field (tally entries) = (entries.map amount).sum := by
  have key : ∀ s : Summary,
      field (entries.foldl Summary.add s) = field s + (entries.map amount).sum := by
    induction entries with
    | nil => intro s; rfl
    | cons e entries ih =>
      intro s
      rw [List.foldl_cons, ih, hadd, List.map_cons, List.sum_cons, Nat.add_assoc]
  rw [tally, key, hzero, Nat.zero_add]

/-- **The failed files of a tally** are the entries that failed. -/
theorem failed_tally (entries : List Entry) :
    (tally entries).failed = entries.countP isFailed := by
  rw [field_tally failed_add rfl]
  induction entries with
  | nil => rfl
  | cons e entries ih =>
    rw [List.map_cons, List.sum_cons, ih, List.countP_cons, Nat.add_comm]

/-- A snippet leaves a diagnostic in its place, -/
@[simp] theorem span_withSnippet (lines : LineTable) (d : Diagnostic) :
    (withSnippet lines d).span = d.span := by
  rw [withSnippet]
  split
  · cases lines.snippet? d.span <;> rfl
  · rfl

/-- and makes no error of a warning. -/
@[simp] theorem isError_withSnippet (lines : LineTable) (d : Diagnostic) :
    (withSnippet lines d).isError = d.isError := by
  rw [withSnippet]
  split
  · cases lines.snippet? d.span <;> rfl
  · rfl

theorem errors_map_withSnippet (lines : LineTable) (found : List Diagnostic) :
    errors (found.map (withSnippet lines)) = (errors found).map (withSnippet lines) := by
  rw [errors, errors, List.filter_map]
  congr 1
  exact List.filter_congr fun d _ => isError_withSnippet lines d

/-- **An entry is counted as failed exactly if its input fails.** -/
theorem isFailed_of_entryOf {recovering : Bool} {input : Input} {entry : Entry}
    (hshort : input.Short) (h : entryOf recovering input = .ok entry) :
    isFailed entry = input.fails := by
  rw [Input.fails]
  cases hcontent : input.content with
  | error e =>
    have hread : input.read = .error (.unreadable input.name e) := by rw [Input.read, hcontent]
    rw [entryOf, hread] at h
    obtain rfl := Except.ok.inj h
    rfl
  | ok content =>
    obtain ⟨result, htokenize, hreport⟩ :=
      exists_entryOf_of_read hshort (Input.read_eq_ok_iff.mpr hcontent)
    obtain ⟨tokens, found, -, hfound, hentry⟩ := hreport recovering
    obtain rfl := Except.ok.inj (hentry.symm.trans h)
    have herrors : Report.errors ⟨input.name, tokens.length,
        found.map (withSnippet (LineTable.ofText content))⟩ = (errors found).length := by
      rw [Report.errors, List.countP_eq_length_filter]
      exact (congrArg List.length (errors_map_withSnippet _ found)).trans (List.length_map _)
    simp only [isFailed, herrors, htokenize]
    cases result with
    | ok strict =>
      rw [hfound.2]
      rfl
    | error e =>
      have hhead : (errors found).head? = some e.toDiagnostic := hfound
      obtain ⟨rest, hrest⟩ := List.head?_eq_some_iff.mp hhead
      rw [hrest]
      rfl

/-! ## The verdict -/

/-- The verdict on some files: they are accepted, or rejected with the number of those that
fail. -/
def verdict (inputs : List Input) : Except Failure Unit :=
  if inputs.countP Input.fails = 0 then .ok () else .error (.rejected (inputs.countP Input.fails))

/-- The report of the strict run over a text, against the report of reading on. -/
structure Compares (source : Text) (strict full : Report) : Prop where
  /-- The strict run has an outcome. -/
  outcome : ∃ result, tokenize source = .ok result
  /-- If it is an error, this is all that the strict report has, and the first error of the other,
  with the same snippet. -/
  error : ∀ e, tokenize source = .ok (.error e) → ∃ d, strict.diagnostics = [d] ∧
    d.isError = true ∧ (errors full.diagnostics).head? = some d
  /-- Otherwise the strict report has nothing, and both have the same number of tokens. -/
  ok : ∀ tokens, tokenize source = .ok (.ok tokens) →
    strict.diagnostics = [] ∧ strict.tokens = full.tokens

/-- A check of files decides by the files alone. -/
structure Judged (o : CheckSettings) (inputs : List Input) : Prop where
  /-- It is over with the verdict on the files, after the totals and the reports. -/
  outcome : ∃ entries, checkAll o inputs = .ok (.ok entries) ∧
    Program.runCheck o inputs = .ok (Outcome.of (verdict inputs) (tally entries).display
      (rendering o.maxErrors entries))
  /-- Whether the tokens are compared with the source makes no difference to the reports. -/
  roundtrip : ∀ verify, checkAll { o with verifyRoundtrip := verify } inputs = checkAll o inputs
  /-- The strict reports, against those of reading on. -/
  reports : ∃ strict full, checkAll { o with recover := false } inputs = .ok (.ok strict) ∧
    checkAll { o with recover := true } inputs = .ok (.ok full) ∧
    strict.length = inputs.length ∧ full.length = inputs.length ∧
    ∀ (n : Nat) (input : Input) source, inputs[n]? = some input → input.content = .ok source →
      ∃ r s, strict[n]? = some (.ok r) ∧ full[n]? = some (.ok s) ∧ Compares source r s

/-- The reports of a file that can be read. -/
theorem compares_of_entryOf {input : Input} {source : Text} (hshort : input.Short)
    (hcontent : input.content = .ok source) {strict full : Entry}
    (hstrict : entryOf false input = .ok strict) (hfull : entryOf true input = .ok full) :
    ∃ r s, strict = .ok r ∧ full = .ok s ∧ Compares source r s := by
  obtain ⟨result, htokenize, hreport⟩ :=
    exists_entryOf_of_read hshort (Input.read_eq_ok_iff.mpr hcontent)
  obtain ⟨tokens, found, hscan, hfound, hentry⟩ := hreport false
  obtain ⟨tokens', found', -, hfound', hentry'⟩ := hreport true
  obtain rfl := Except.ok.inj (hentry.symm.trans hstrict)
  obtain rfl := Except.ok.inj (hentry'.symm.trans hfull)
  -- the strict run gives its one error or none
  have hnew : scan false source = .ok _ := congrArg (Except.map _) htokenize
  obtain ⟨rfl, rfl⟩ := Prod.mk.inj (Except.ok.inj (hscan.symm.trans hnew))
  refine ⟨_, _, rfl, rfl, ⟨result, htokenize⟩, ?_, ?_⟩
  · intro e he
    obtain rfl := Except.ok.inj (htokenize.symm.trans he)
    refine ⟨_, rfl, isError_withSnippet _ _, ?_⟩
    rw [errors_map_withSnippet, List.head?_map, hfound']
    rfl
  · intro strict hok
    obtain rfl := Except.ok.inj (htokenize.symm.trans hok)
    exact ⟨rfl, congrArg List.length hfound'.1.symm⟩

/-- A check of short files has entries, one for each. -/
theorem exists_checkAll {o : CheckSettings} {inputs : List Input} (hne : inputs ≠ [])
    (hjobs : 0 < o.jobs) (hshort : ∀ input ∈ inputs, input.Short) :
    ∃ entries, checkAll o inputs = .ok (.ok entries) ∧
      List.Forall₂ (fun input entry => entryOf o.recover input = .ok entry) inputs entries := by
  obtain ⟨entries, hentries, hall⟩ :=
    Checked.exists_mapM fun input hmem => exists_entryOf (hshort input hmem) o.recover
  refine ⟨entries, ?_, hall⟩
  rw [checkAll_eq hne hjobs, hentries]
  rfl

/-- **The verdict depends on the files alone**: for any settings with at least one job, a check of
files of less than `2 ^ 29` bytes each fails with the number of those that cannot be read or have a
lexical error, and succeeds if there is none. -/
theorem judged_of_byteSize_lt {o : CheckSettings} {inputs : List Input} (hne : inputs ≠ [])
    (hjobs : 0 < o.jobs) (hshort : ∀ input ∈ inputs, input.Short) : Judged o inputs := by
  refine ⟨?_, ?_, ?_⟩
  · obtain ⟨entries, hentries, hall⟩ := exists_checkAll hne hjobs hshort
    have hfails : List.Forall₂ (fun input entry => input.fails = isFailed entry) inputs
        entries := by
      refine ((List.forall₂_and_left _ _).mpr ⟨hshort, hall⟩).imp ?_
      intro input entry h
      exact (isFailed_of_entryOf h.1 h.2).symm
    have hfailed : (tally entries).failed = inputs.countP Input.fails := by
      rw [failed_tally, countP_eq_of_forall₂ hfails]
    refine ⟨entries, hentries, ?_⟩
    rw [Program.runCheck, hentries, verdict, ← hfailed]
    rfl
  · intro verify
    rw [checkAll_eq hne hjobs, checkAll_eq (o := { o with verifyRoundtrip := verify }) hne hjobs]
  · obtain ⟨strict, hstrict, hall⟩ :=
      exists_checkAll (o := { o with recover := false }) hne hjobs hshort
    obtain ⟨full, hfull, hall'⟩ :=
      exists_checkAll (o := { o with recover := true }) hne hjobs hshort
    refine ⟨strict, full, hstrict, hfull, hall.length_eq.symm, hall'.length_eq.symm, ?_⟩
    intro n input source hn hcontent
    obtain ⟨a, ha, hentry⟩ := exists_getElem?_of_forall₂ hall hn
    obtain ⟨b, hb, hentry'⟩ := exists_getElem?_of_forall₂ hall' hn
    obtain ⟨r, s, rfl, rfl, hcompares⟩ :=
      compares_of_entryOf (hshort input (List.mem_of_getElem? hn)) hcontent hentry hentry'
    exact ⟨r, s, ha, hb, hcompares⟩

/-- A file that is not there, one with a character that no rule takes, and one with a stray bracket,
which is no error: two of the three fail. -/
theorem judged_of_byteSize_lt_two_of_three :
    verdict [⟨"a", .error .notFound⟩, ⟨"b", .ok ['x', '$']⟩, ⟨"c", .ok [')']⟩] =
        .error (.rejected 2) ∧
      Judged { jobs := 2, maxErrors := 1, recover := false }
        [⟨"a", .error .notFound⟩, ⟨"b", .ok ['x', '$']⟩, ⟨"c", .ok [')']⟩] := by
  refine ⟨by decide +kernel, judged_of_byteSize_lt (by simp) (by simp) ?_⟩
  intro input hmem text hcontent
  have hcases : text = ['x', '$'] ∨ text = [')'] := by
    simp only [List.mem_cons, List.not_mem_nil, or_false] at hmem
    rcases hmem with rfl | rfl | rfl
    · contradiction
    · exact .inl (Except.ok.inj hcontent).symm
    · exact .inr (Except.ok.inj hcontent).symm
  rcases hcases with rfl | rfl
  · decide
  · decide

end Check

end Lexis
