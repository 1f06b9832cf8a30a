import Lexis.Proofs.Relabel
import Lexis.Proofs.Verdict

/-!
# Listings of several files

A listing goes through the files in their order and ends at the first that cannot be read or that
has a lexical error. What has been written by then are the whole listings of the files in front, and
of a file with an error the lines of the tokens in front of it. Each is what the file gives by
itself; in the text format and with several files each stands under a header, and that of a file
that cannot be read is not written.

* `Listing.Section`, `Listing.layout`: the part of a listing that is about one file, and how the
  parts stand together. `Listing.placed_zero` says that this is how they are written one by one.
* `Listing.file_of_run`: the listing of a file, from the run over its text.
* `Listing.renderFrom_append`: files that are listed to their ends are in front of the rest.
* `Listing.Completes`, `Listing.Breaks`: the section of a file without and with a lexical error.
* `Listing.Rendered`: what is written and how it ends. `Listing.exists_rendered_of_byteSize_lt` says
  that every listing of short files is such a one.
-/

namespace Lexis.Listing

open Lexer

/-! ## Sections -/

/-- The lines of some tokens of the file with a name. -/
def lines (o : Options) (name : String) (tokens : List Token) : String :=
  String.join (tokens.map (line o.format name))

/-- The part of a listing that is about one file. -/
structure Section where
  /-- The name of the file. -/
  name : String
  /-- The lines of its tokens. -/
  lines : String

/-- The section under its header. -/
def Section.headed (s : Section) : String := "==> " ++ s.name ++ " <==\n" ++ s.lines

/-- Sections one after the other. Where they have headers, an empty line stands between them. -/
def layout (headers : Bool) (sections : List Section) : String :=
  if headers then "\n".intercalate (sections.map Section.headed)
  else String.join (sections.map Section.lines)

/-- Whether the listing of some inputs has headers: in the text format, if there are several. -/
def hasHeaders (o : Options) (inputs : List Input) : Bool :=
  decide (1 < inputs.length) && o.format = .text

/-- A section as it is written behind `index` others. -/
def placedAt (headers : Bool) (index : Nat) (s : Section) : String :=
  (if headers then header index s.name else "") ++ s.lines

/-- Sections as they are written one by one, behind `index` others. -/
def placed (headers : Bool) (index : Nat) : List Section → String
  | [] => ""
  | s :: ss => placedAt headers index s ++ placed headers (index + 1) ss

theorem placed_append (headers : Bool) (index : Nat) (ss ss' : List Section) :
    placed headers index (ss ++ ss') =
      placed headers index ss ++ placed headers (index + ss.length) ss' := by
  induction ss generalizing index with
  | nil => exact String.empty_append.symm
  | cons s ss ih =>
    rw [List.cons_append, placed, ih, placed, String.append_assoc, List.length_cons,
      Nat.add_right_comm, Nat.add_assoc]

theorem placed_singleton (headers : Bool) (index : Nat) (s : Section) :
    placed headers index [s] = placedAt headers index s := String.append_empty

/-- The first section stands under its header, -/
theorem placedAt_zero (s : Section) : placedAt true 0 s = s.headed := by
  simp only [placedAt, header, Section.headed, if_true, String.empty_append, String.append_assoc]

/-- and a later one behind an empty line. -/
theorem placedAt_succ (index : Nat) (s : Section) :
    placedAt true (index + 1) s = "\n" ++ s.headed := by
  simp only [placedAt, header, Section.headed, if_true, if_neg (Nat.succ_ne_zero index),
    String.append_assoc]

theorem placed_succ (index : Nat) (s : Section) (ss : List Section) :
    placed true (index + 1) (s :: ss) =
      "\n" ++ "\n".intercalate ((s :: ss).map Section.headed) := by
  induction ss generalizing index s with
  | nil =>
    rw [placed_singleton, placedAt_succ, List.map_singleton, String.intercalate_singleton]
  | cons s' ss ih =>
    rw [placed, ih, placedAt_succ]
    simp only [List.map_cons, String.intercalate_cons_cons, String.append_assoc]

/-- **Written one by one**, sections stand as they are laid out. -/
theorem placed_zero (headers : Bool) (ss : List Section) :
    placed headers 0 ss = layout headers ss := by
  cases headers with
  | false =>
    have key : ∀ index, placed false index ss = String.join (ss.map Section.lines) := by
      induction ss with
      | nil => intro index; rfl
      | cons s ss ih =>
        intro index
        rw [placed, ih, List.map_cons, String.join_cons]
        exact congrArg (· ++ _) String.empty_append
    exact key 0
  | true =>
    have hlayout : layout true ss = "\n".intercalate (ss.map Section.headed) := rfl
    rw [hlayout]
    match ss with
    | [] => rfl
    | [s] => rw [placed_singleton, placedAt_zero, List.map_singleton, String.intercalate_singleton]
    | s :: s' :: ss =>
      rw [placed, placed_succ, placedAt_zero]
      simp only [List.map_cons, String.intercalate_cons_cons, String.append_assoc]

/-! ## The listing of a file -/

/-- The number of a file is not printed. -/
theorem line_inFile (format : Format) (name : String) (file : FileId) (t : Token) :
    line format name (t.inFile file) = line format name t := by
  cases format <;> rfl

theorem lines_map_inFile (o : Options) (name : String) (file : FileId) (tokens : List Token) :
    lines o name (tokens.map (Token.inFile file)) = lines o name tokens := by
  rw [lines, lines, List.map_map]
  exact congrArg String.join (List.map_congr_left fun t _ => line_inFile o.format name file t)

/-- **The listing of a file**, from the run over its text: the lines of the tokens that the mode
shows, and the error that ends the run, if one does. -/
theorem file_of_run {content : Text} {ts : List Token} {m : Lexer} {u : Turn}
    (hrun : Run (.ofSource content) ts m) (hnext : m.next = .ok u) (hstops : stops u.reply = true)
    (o : Options) (name : String) (id : FileId) :
    file o ⟨id, name, content⟩ =
      .ok (lines o name (ts.filter o.mode.shows ++ u.reply.toOption.toList),
        match u.reply with
        | .ok _ => none
        | .error e => some (e.inFile id)) := by
  have hnext' : (m.inFile id).next = .ok (u.inFile id) := by rw [next_inFile, hnext]; rfl
  have hstops' : stops (u.inFile id).reply = true := (stops_replyInFile id u.reply).trans hstops
  obtain ⟨us, hus, htokens, hbefore⟩ := (hrun.inFile id).exists_turns hnext' hstops' o.mode
  have hlines : String.join ((Turn.tokensBeforeError us).map (line o.format name)) =
      lines o name (ts.filter o.mode.shows ++ u.reply.toOption.toList) := by
    rw [← lines_map_inFile o name id, List.map_append, ← o.mode.filter_map_inFile, hbefore]
    cases hreply : u.reply <;> simp only [Turn.inFile, hreply] <;> rfl
  have hturns : (Lexer.ofSource content id).turns o.mode = .ok us := hus
  rw [file, hturns]
  simp only [Except.map, hlines, htokens]
  cases hreply : u.reply <;> simp only [Turn.inFile, hreply] <;> rfl

/-! ## The sections of inputs -/

/-- The section has a line for each token of the input that the mode shows. -/
def Lists (o : Options) (input : Input) (s : Section) : Prop :=
  ∃ content tokens, input.content = .ok content ∧
    tokenizeIn o.mode content = .ok (.ok tokens) ∧ s = ⟨input.name, lines o input.name tokens⟩

/-- The section has a line for each token that the mode shows of those in front of the error. -/
def ListsUpTo (o : Options) (input : Input) (e : LexError) (s : Section) : Prop :=
  ∃ content ts m u, input.content = .ok content ∧ Run (.ofSource content) ts m ∧
    m.next = .ok u ∧ u.reply = .error e ∧
    s = ⟨input.name, lines o input.name (ts.filter o.mode.shows)⟩

/-- A short input that does not fail has a section. -/
theorem exists_lists {input : Input} (hshort : input.Short) (h : input.fails = false)
    (o : Options) : ∃ s, Lists o input s := by
  cases hcontent : input.content with
  | error e => simp [Input.fails, hcontent] at h
  | ok content =>
    obtain ⟨result, htokenize, -⟩ := Check.exists_finds content (hshort content hcontent)
    cases result with
    | error e => simp [Input.fails, hcontent, htokenize] at h
    | ok tokens =>
      refine ⟨_, content, tokens.filter o.mode.shows, hcontent, ?_, rfl⟩
      rw [tokenizeIn_eq, htokenize]
      rfl

/-- So has one with a lexical error, up to it. -/
theorem exists_listsUpTo {input : Input} {content : Text} {e : LexError}
    (hcontent : input.content = .ok content) (h : tokenize content = .ok (.error e))
    (o : Options) : ∃ s, ListsUpTo o input e s := by
  obtain ⟨ts, m, u, hrun, hnext, hreply⟩ := exists_run_of_tokenize_error h
  exact ⟨_, content, ts, m, u, hcontent, hrun, hnext, hreply, rfl⟩

/-! ## One input after the other -/

variable {o : Options} {input : Input} {s : Section}

theorem Rendering.behind_behind (front back : String) (r : Rendering) :
    (r.behind back).behind front = r.behind (front ++ back) := by
  simp only [Rendering.behind, String.append_assoc]

/-- An input without an error is listed, and the rest behind it. -/
theorem renderFrom_of_lists (h : Lists o input s) (headers : Bool) (index : Nat)
    (rest : List Input) :
    renderFrom o headers index (input :: rest) =
      (renderFrom o headers (index + 1) rest).map (·.behind (placedAt headers index s)) := by
  obtain ⟨content, tokens, hcontent, htokens, rfl⟩ := h
  rw [tokenizeIn_eq] at htokens
  obtain ⟨result, htokenize, heq⟩ := Checked.map_eq_ok_iff.mp htokens
  cases result with
  | error e => exact nomatch heq
  | ok all =>
    obtain rfl := Except.ok.inj heq
    obtain ⟨ts, m, hrun, hrest, rfl⟩ := exists_run_of_tokenize htokenize
    have hnext : m.next = .ok m.finish := by rw [Lexer.next, hrest]
    have hshows := shows_of_isEof hnext rfl rfl o.mode
    have hfile := file_of_run hrun hnext rfl o input.name ⟨index⟩
    have hlines : ts.filter o.mode.shows ++ m.finish.reply.toOption.toList =
        (ts ++ [m.eofToken]).filter o.mode.shows := by
      rw [List.filter_append, List.filter_singleton, hshows]
      rfl
    rw [hlines] at hfile
    simp only [renderFrom, Input.read_eq_ok_iff.mpr hcontent, hfile, bind, Except.bind]
    cases renderFrom o headers (index + 1) rest <;> rfl

/-- An input with an error is listed up to it, and nothing behind it. -/
theorem exists_renderFrom_of_listsUpTo {e : LexError} (h : ListsUpTo o input e s) (headers : Bool)
    (index : Nat) (rest : List Input) :
    ∃ report, renderFrom o headers index (input :: rest) =
      .ok ⟨placedAt headers index s, report, .error (.lexical (e.inFile ⟨index⟩))⟩ := by
  obtain ⟨content, ts, m, u, hcontent, hrun, hnext, hreply, rfl⟩ := h
  have hstops : stops u.reply = true := by rw [hreply]; rfl
  have hfile := file_of_run hrun hnext hstops o input.name ⟨index⟩
  simp only [hreply, Except.toOption, Option.toList_none, List.append_nil] at hfile
  refine ⟨((e.inFile ⟨index⟩).toDiagnosticIn ⟨⟨index⟩, input.name, content⟩).display ++ "\n", ?_⟩
  simp only [renderFrom, Input.read_eq_ok_iff.mpr hcontent, hfile, bind, Except.bind]
  rfl

theorem renderFrom_of_unreadable {e : IoError} (h : input.content = .error e) (headers : Bool)
    (index : Nat) (rest : List Input) :
    renderFrom o headers index (input :: rest) =
      .ok { result := .error (.unreadable input.name e) } := by
  have hread : input.read = .error (.unreadable input.name e) := by rw [Input.read, h]
  rw [renderFrom, hread]

/-- **Inputs without an error** are listed one after the other, and the rest behind them. -/
theorem renderFrom_append {front : List Input} {sections : List Section}
    (h : List.Forall₂ (Lists o) front sections) (headers : Bool) (index : Nat)
    (rest : List Input) :
    renderFrom o headers index (front ++ rest) =
      (renderFrom o headers (index + front.length) rest).map
        (·.behind (placed headers index sections)) := by
  induction h generalizing index with
  | nil =>
    have hbehind : ∀ r : Rendering, r.behind "" = r := fun r => by
      rw [Rendering.behind, String.empty_append]
    rw [List.nil_append, List.length_nil, Nat.add_zero, placed]
    cases renderFrom o headers index rest with
    | error fault => rfl
    | ok r => exact congrArg Except.ok (hbehind r).symm
  | @cons input s front sections hlists _ ih =>
    rw [List.cons_append, renderFrom_of_lists hlists, ih, List.length_cons, placed,
      ← Nat.add_assoc, Nat.add_right_comm]
    cases renderFrom o headers (index + front.length + 1) rest with
    | error fault => rfl
    | ok r => exact congrArg Except.ok (Rendering.behind_behind _ _ r)

/-! ## Listings -/

/-- The section of an input without an error is also all that is written of the input alone. -/
structure Completes (o : Options) (input : Input) (s : Section) : Prop where
  /-- It has a line for each token that the mode shows. -/
  lists : Lists o input s
  /-- The input alone gives these lines. -/
  alone : ∃ r, render o [input] = .ok r ∧ r.out = s.lines ∧ r.result = .ok ()

/-- The section of an input with a lexical error is also all that is written of the input alone. -/
structure Breaks (o : Options) (input : Input) (e : LexError) (s : Section) : Prop where
  /-- It has a line for each token that the mode shows of those in front of the error. -/
  lists : ListsUpTo o input e s
  /-- The input alone gives these lines and the error. -/
  alone : ∃ r, render o [input] = .ok r ∧ r.out = s.lines ∧
    r.result = .error (.lexical (e.inFile ⟨0⟩))

theorem render_of_ne_nil {inputs : List Input} (hne : inputs ≠ []) :
    render o inputs = renderFrom o (hasHeaders o inputs) 0 inputs :=
  if_neg (by simpa using hne)

theorem render_singleton (o : Options) (input : Input) :
    render o [input] = renderFrom o false 0 [input] :=
  render_of_ne_nil (List.cons_ne_nil _ _)

theorem completes_of_lists (h : Lists o input s) : Completes o input s := by
  refine ⟨h, { out := s.lines }, ?_, rfl, rfl⟩
  rw [render_singleton, renderFrom_of_lists h, renderFrom]
  simp [Except.map, Rendering.behind, placedAt]

theorem breaks_of_listsUpTo {e : LexError} (h : ListsUpTo o input e s) : Breaks o input e s := by
  obtain ⟨report, hrender⟩ := exists_renderFrom_of_listsUpTo h false 0 []
  exact ⟨h, _, (render_singleton o input).trans hrender, String.empty_append, rfl⟩

/-- Short inputs without an error have their sections. -/
theorem exists_sections {inputs : List Input} (hshort : ∀ input ∈ inputs, input.Short)
    (hclean : ∀ input ∈ inputs, input.fails = false) (o : Options) :
    ∃ sections, List.Forall₂ (Completes o) inputs sections := by
  induction inputs with
  | nil => exact ⟨[], .nil⟩
  | cons input inputs ih =>
    obtain ⟨hfirst, hshort⟩ := List.forall_mem_cons.mp hshort
    obtain ⟨hclean', hclean⟩ := List.forall_mem_cons.mp hclean
    obtain ⟨s, hs⟩ := exists_lists hfirst hclean' o
    obtain ⟨sections, hsections⟩ := ih hshort hclean
    exact ⟨s :: sections, .cons (completes_of_lists hs) hsections⟩

/-- **What is written** of several inputs, and how it ends. -/
structure Rendered (o : Options) (inputs : List Input) (r : Rendering) : Prop where
  /-- It ends well exactly if no input fails. -/
  ok_iff : r.result = .ok () ↔ ∀ input ∈ inputs, input.fails = false
  /-- Then all inputs are listed to their ends. -/
  complete : r.result = .ok () → ∃ sections, List.Forall₂ (Completes o) inputs sections ∧
    r.out = layout (hasHeaders o inputs) sections
  /-- At an input that cannot be read it ends with that failure, and only the inputs in front are
  listed. -/
  unreadable : ∀ front bad rest e, inputs = front ++ bad :: rest →
    (∀ input ∈ front, input.fails = false) → bad.content = .error e →
    r.result = .error (.unreadable bad.name e) ∧
      ∃ sections, List.Forall₂ (Completes o) front sections ∧
        r.out = layout (hasHeaders o inputs) sections
  /-- At an input with a lexical error it ends with that error, which has the number of the input,
  and the input is listed up to the error behind those in front. -/
  broken : ∀ front bad rest content e, inputs = front ++ bad :: rest →
    (∀ input ∈ front, input.fails = false) → bad.content = .ok content →
    tokenize content = .ok (.error e) →
    r.result = .error (.lexical (e.inFile ⟨front.length⟩)) ∧
      ∃ sections last, List.Forall₂ (Completes o) front sections ∧ Breaks o bad e last ∧
        r.out = layout (hasHeaders o inputs) (sections ++ [last])

section

variable {front rest : List Input} {bad : Input} {sections : List Section}

/-- The inputs in front are written as they are laid out. -/
theorem render_append (hne : front ++ rest ≠ []) (h : List.Forall₂ (Completes o) front sections) :
    render o (front ++ rest) =
      (renderFrom o (hasHeaders o (front ++ rest)) front.length rest).map
        (·.behind (layout (hasHeaders o (front ++ rest)) sections)) := by
  have hlists : List.Forall₂ (Lists o) front sections := h.imp fun _ _ h => h.lists
  rw [render_of_ne_nil hne, renderFrom_append hlists, placed_zero, Nat.zero_add]

/-- Where no input fails, all are written. -/
theorem render_of_completes (hne : front ≠ []) (h : List.Forall₂ (Completes o) front sections) :
    render o front = .ok { out := layout (hasHeaders o front) sections } := by
  have happend := render_append (by simpa using hne : front ++ [] ≠ []) h
  rw [List.append_nil, renderFrom] at happend
  rw [happend]
  simp [Except.map, Rendering.behind]

theorem render_of_unreadable {e : IoError} (h : List.Forall₂ (Completes o) front sections)
    (he : bad.content = .error e) :
    render o (front ++ bad :: rest) =
      .ok { out := layout (hasHeaders o (front ++ bad :: rest)) sections
            result := .error (.unreadable bad.name e) } := by
  rw [render_append (by simp) h, renderFrom_of_unreadable he]
  simp [Except.map, Rendering.behind]

theorem exists_render_of_breaks {e : LexError} (h : List.Forall₂ (Completes o) front sections)
    (hbreaks : Breaks o bad e s) :
    ∃ report, render o (front ++ bad :: rest) =
      .ok ⟨layout (hasHeaders o (front ++ bad :: rest)) (sections ++ [s]), report,
        .error (.lexical (e.inFile ⟨front.length⟩))⟩ := by
  obtain ⟨report, hrender⟩ := exists_renderFrom_of_listsUpTo hbreaks.lists
    (hasHeaders o (front ++ bad :: rest)) front.length rest
  refine ⟨report, ?_⟩
  have hplaced : ∀ headers, layout headers (sections ++ [s]) =
      layout headers sections ++ placedAt headers front.length s := by
    intro headers
    rw [← placed_zero, placed_append, placed_singleton, placed_zero, Nat.zero_add, h.length_eq]
  rw [render_append (by simp) h, hrender, hplaced]
  rfl

end

/-- An input fails because it cannot be read or has a lexical error. -/
theorem exists_of_fails (h : input.fails = true) : (∃ e, input.content = .error e) ∨
    ∃ content e, input.content = .ok content ∧ tokenize content = .ok (.error e) := by
  rw [Input.fails] at h
  cases hcontent : input.content with
  | error e => exact .inl ⟨e, rfl⟩
  | ok content =>
    rcases htokenize : tokenize content with fault | e | tokens
    · simp [hcontent, htokenize] at h
    · exact .inr ⟨content, e, rfl, htokenize⟩
    · simp [hcontent, htokenize] at h

/-- Short inputs are listed without a fault, and it ends well exactly if none fails. -/
theorem exists_render {inputs : List Input} (hne : inputs ≠ [])
    (hshort : ∀ input ∈ inputs, input.Short) (o : Options) :
    ∃ r, render o inputs = .ok r ∧
      (r.result = .ok () ↔ ∀ input ∈ inputs, input.fails = false) := by
  cases hfind : inputs.find? Input.fails with
  | none =>
    have hclean : ∀ input ∈ inputs, input.fails = false := by
      simpa using List.find?_eq_none.mp hfind
    obtain ⟨sections, hsections⟩ := exists_sections hshort hclean o
    exact ⟨_, render_of_completes hne hsections, fun _ => hclean, fun _ => rfl⟩
  | some bad =>
    obtain ⟨hfails, front, rest, rfl, hfront⟩ := List.find?_eq_some_iff_append.mp hfind
    have hbad : ¬ ∀ input ∈ front ++ bad :: rest, input.fails = false := fun hall => by
      have hfalse := hall bad (by simp)
      rw [hfails] at hfalse
      contradiction
    obtain ⟨sections, hsections⟩ := exists_sections
      (fun input hmem => hshort input (List.mem_append_left _ hmem))
      (fun input hmem => by simpa using hfront input hmem) o
    obtain ⟨e, he⟩ | ⟨content, e, hcontent, htokenize⟩ := exists_of_fails hfails
    · exact ⟨_, render_of_unreadable hsections he, (nomatch ·), fun hall => absurd hall hbad⟩
    · obtain ⟨s, hs⟩ := exists_listsUpTo hcontent htokenize o
      obtain ⟨report, hrender⟩ := exists_render_of_breaks hsections (breaks_of_listsUpTo hs)
      exact ⟨_, hrender, (nomatch ·), fun hall => absurd hall hbad⟩

/-- **Listings compose, and fail with an exact prefix**: inputs of less than `2 ^ 29` bytes each are
listed up to the first that fails, each as by itself, and of one with a lexical error the tokens in
front of it. -/
theorem exists_rendered_of_byteSize_lt {o : Options} {inputs : List Input} (hne : inputs ≠ [])
    (hshort : ∀ input ∈ inputs, input.Short) :
    ∃ r, render o inputs = .ok r ∧ Rendered o inputs r := by
  obtain ⟨r, hrender, hiff⟩ := exists_render hne hshort o
  refine ⟨r, hrender, hiff, ?_, ?_, ?_⟩
  · intro hok
    obtain ⟨sections, hsections⟩ := exists_sections hshort (hiff.mp hok) o
    obtain rfl := Except.ok.inj (hrender.symm.trans (render_of_completes hne hsections))
    exact ⟨sections, hsections, rfl⟩
  · rintro front bad rest e rfl hclean he
    obtain ⟨sections, hsections⟩ := exists_sections
      (fun input hmem => hshort input (List.mem_append_left _ hmem)) hclean o
    obtain rfl := Except.ok.inj (hrender.symm.trans (render_of_unreadable hsections he))
    exact ⟨rfl, sections, hsections, rfl⟩
  · rintro front bad rest content e rfl hclean hcontent htokenize
    obtain ⟨sections, hsections⟩ := exists_sections
      (fun input hmem => hshort input (List.mem_append_left _ hmem)) hclean o
    obtain ⟨s, hs⟩ := exists_listsUpTo hcontent htokenize o
    obtain ⟨report, hrender'⟩ := exists_render_of_breaks hsections (breaks_of_listsUpTo hs)
    obtain rfl := Except.ok.inj (hrender.symm.trans hrender')
    exact ⟨rfl, sections, s, hsections, breaks_of_listsUpTo hs, rfl⟩

/-- A name and a hidden space in front of a character that no rule takes, and behind it a file that
is not there: of the second file the name is listed, and the third is not reached. -/
theorem exists_rendered_of_byteSize_lt_hidden_tail :
    ∃ r, render { visible := true }
        [⟨"a", .ok ['(']⟩, ⟨"b", .ok ['x', ' ', '$']⟩, ⟨"c", .error .notFound⟩] = .ok r ∧
      r.out = "==> a <==\n1:0 LPAREN visible \"(\"\n1:1 EOF visible \"\"\n" ++
        "\n==> b <==\n1:0 NAME visible \"x\"\n" ∧
      r.result = .error (.lexical ⟨.unrecognized '$', ⟨2, 3, 1, 2, ⟨1⟩⟩⟩) ∧
      Rendered { visible := true }
        [⟨"a", .ok ['(']⟩, ⟨"b", .ok ['x', ' ', '$']⟩, ⟨"c", .error .notFound⟩] r := by
  have hrendered : ∃ r, render { visible := true }
        [⟨"a", .ok ['(']⟩, ⟨"b", .ok ['x', ' ', '$']⟩, ⟨"c", .error .notFound⟩] = .ok r ∧
      Rendered { visible := true }
        [⟨"a", .ok ['(']⟩, ⟨"b", .ok ['x', ' ', '$']⟩, ⟨"c", .error .notFound⟩] r :=
    exists_rendered_of_byteSize_lt (by decide) (by decide)
  have hwritten : (render { visible := true }
      [⟨"a", .ok ['(']⟩, ⟨"b", .ok ['x', ' ', '$']⟩, ⟨"c", .error .notFound⟩]).map
        (fun r => (r.out, r.result)) =
      .ok ("==> a <==\n1:0 LPAREN visible \"(\"\n1:1 EOF visible \"\"\n" ++
        "\n==> b <==\n1:0 NAME visible \"x\"\n",
        .error (.lexical ⟨.unrecognized '$', ⟨2, 3, 1, 2, ⟨1⟩⟩⟩)) := by
    decide +kernel
  obtain ⟨r, hrender, hrendered⟩ := hrendered
  rw [hrender] at hwritten
  obtain ⟨hout, hresult⟩ := Prod.mk.inj (Except.ok.inj hwritten)
  exact ⟨r, hrender, hout, hresult, hrendered⟩

end Lexis.Listing
