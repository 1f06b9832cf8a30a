import Lexis.Proofs.Listing
import Lexis.Proofs.Unquote

/-!
# The lines of a listing

A listing has a line for each token, and nothing that a token holds can break its line or be taken
for another part of it: line breaks, quotes and separators in texts and names are escaped, and what
is not quoted has no space in it. So each line can be read back, in both formats.

* `Kind.ofDisplay?`: the kind with a name.
* `Listing.textRecord`, `Listing.jsonRecord`: readers for the lines of the two formats.
  `Listing.textRecord_takes` and `Listing.jsonRecord_takes` say that they read every line back.
* `Listing.not_mem_textBody`, `Listing.not_mem_jsonBody`: what stands in front of the line break.
* `Listing.Decodes`: the lines of a token. `Listing.decodes_and_count_render` says that every token
  has such lines, and that a listing has as many lines as tokens.
-/

namespace Lexis

open Toml Toml.Reader

/-! ## Kinds by name -/

namespace Kind

/-- The kind with a name. -/
def ofDisplay? (name : Text) : Option Kind := all.find? fun k => k.display == String.ofList name

theorem ofDisplay?_display (k : Kind) : ofDisplay? k.display.toList = some k := by
  have hall : ∀ k ∈ all, (all.find? fun k' => k'.display == k.display) = some k := by
    decide +kernel
  rw [ofDisplay?, String.ofList_toList]
  exact hall k (mem_all k)

/-- A name has neither a space nor a line break. -/
theorem not_mem_display (k : Kind) : ' ' ∉ k.display.toList ∧ '\n' ∉ k.display.toList := by
  have hall : ∀ k ∈ all, ' ' ∉ k.display.toList ∧ '\n' ∉ k.display.toList := by decide +kernel
  exact hall k (mem_all k)

end Kind

/-- Where there is no error, all tokens are in front of it. -/
theorem Turn.tokensBeforeError_of_tokens {us : List Turn} {ts : List Token}
    (h : tokens us = .ok ts) : tokensBeforeError us = ts := by
  induction us generalizing ts with
  | nil => exact Except.ok.inj h
  | cons u us ih =>
    cases hreply : u.reply with
    | error e => simp [tokens, hreply] at h
    | ok t =>
      simp only [tokens, hreply] at h
      cases hrest : tokens us with
      | error e => simp [hrest, Except.map] at h
      | ok rest =>
        rw [hrest] at h
        obtain rfl := Except.ok.inj h
        rw [tokensBeforeError, hreply, ih hrest]

namespace Listing

/-! ## Reading lines -/

/-- What the reader makes of a whole string. -/
def whole? {α : Type} (r : Reader α) (s : String) : Option α :=
  match r s.toList with
  | some (a, []) => some a
  | _ => none

theorem whole?_of_takes {α : Type} {r : Reader α} {s : String} {a : α} (h : r.Takes s.toList a) :
    whole? r s = some a := by
  have hnil := h []
  rw [List.append_nil] at hnil
  rw [whole?, hnil]

/-- What a line of the text format tells of a token. -/
structure TextRecord where
  /-- The line on which the token starts, -/
  line : Nat
  /-- and the column. -/
  column : Nat
  /-- What it is. -/
  kind : Kind
  /-- Whether a parser sees it. -/
  visible : Bool
  /-- Its text. -/
  text : Text
  deriving DecidableEq, Repr

/-- What a line of the JSON format tells of a token. -/
structure JsonRecord where
  /-- The name of the file. -/
  file : String
  /-- What the token is. -/
  kind : Kind
  /-- The number of that in the grammar. -/
  id : Int
  /-- Its text. -/
  text : Text
  /-- The byte offset of its start, -/
  start : Nat
  /-- and of its end. -/
  stop : Nat
  /-- The line on which it starts, -/
  line : Nat
  /-- and the column. -/
  column : Nat
  /-- Whether a parser sees it. -/
  visible : Bool
  deriving DecidableEq, Repr

/-- The visibility that a word spells. -/
def visibility? (word : Text) : Option Bool :=
  if word = "visible".toList then some true
  else if word = "hidden".toList then some false
  else none

/-- The truth value that a word spells. -/
def truth? (word : Text) : Option Bool :=
  if word = "true".toList then some true
  else if word = "false".toList then some false
  else none

/-- Takes a line of the text format. -/
def textRecord : Reader TextRecord := do
  let line ← valueUpTo number? ':'
  let column ← valueUpTo number? ' '
  let kind ← valueUpTo Kind.ofDisplay? ' '
  let visible ← valueUpTo visibility? ' '
  let text ← Quoted.readDisplay
  expect ['\n']
  return ⟨line, column, kind, visible, text⟩

/-- Takes a field of a JSON object. -/
def field {α : Type} (name : String) (value : Reader α) : Reader α := do
  expect (jsonField name "").toList
  value

/-- Takes a JSON string and the comma behind it. -/
def listed : Reader Text := do
  let text ← Quoted.readJson
  expect [',']
  return text

/-- Takes a JSON string with the name of a kind, and the comma behind it. -/
def listedKind : Reader Kind := do Read.ofOption (Kind.ofDisplay? (← listed))

/-- Takes a line of the JSON format. -/
def jsonRecord : Reader JsonRecord := do
  expect ['\x7b']
  let file ← field "file" listed
  let kind ← field "kind" listedKind
  let id ← field "id" (valueUpTo integer? ',')
  let text ← field "text" listed
  let start ← field "start" (valueUpTo number? ',')
  let stop ← field "end" (valueUpTo number? ',')
  let line ← field "line" (valueUpTo number? ',')
  let column ← field "column" (valueUpTo number? ',')
  let visible ← field "visible" (valueUpTo truth? '\x7d')
  expect ['\n']
  return ⟨String.ofList file, kind, id, text, start, stop, line, column, visible⟩

/-! ## The lines without their breaks -/

/-- The word for a visibility. -/
def visibilityWord (visible : Bool) : Text := (if visible then "visible" else "hidden").toList

/-- A line of the text format, without its line break. -/
def textBody (t : Token) : Text :=
  (toString t.span.line).toList ++ [':'] ++ (toString t.span.column).toList ++ [' '] ++
    t.kind.display.toList ++ [' '] ++ visibilityWord t.visible ++ [' '] ++
    (Quoted.display t.text).toList

/-- The fields of a line of the JSON format. -/
def jsonFields (name : String) (t : Token) : List String :=
  [jsonField "file" (Quoted.json name.toList),
    jsonField "kind" (Quoted.json t.kind.display.toList),
    jsonField "id" (toString t.kind.id),
    jsonField "text" (Quoted.json t.text),
    jsonField "start" (toString t.span.start),
    jsonField "end" (toString t.span.stop),
    jsonField "line" (toString t.span.line),
    jsonField "column" (toString t.span.column),
    jsonField "visible" (if t.visible then "true" else "false")]

/-- A line of the JSON format, without its line break. -/
def jsonBody (name : String) (t : Token) : Text :=
  '\x7b' :: ((",".intercalate (jsonFields name t)).toList ++ ['\x7d'])

theorem toList_textLine (t : Token) : (textLine t).toList = textBody t ++ ['\n'] := by
  have hplace : t.span.display = toString t.span.line ++ ":" ++ toString t.span.column := rfl
  have hvisible : (if t.visible then " visible " else " hidden ").toList =
      ' ' :: (visibilityWord t.visible ++ [' ']) := by
    cases t.visible <;> rfl
  simp [textLine, hplace, textBody, hvisible]

theorem toList_jsonLine (name : String) (t : Token) :
    (jsonLine name t).toList = jsonBody name t ++ ['\n'] := by
  have hline : jsonLine name t = "\x7b" ++ ",".intercalate (jsonFields name t) ++ "\x7d\n" := rfl
  have hopen : "\x7b".toList = ['\x7b'] := rfl
  have hclose : "\x7d\n".toList = ['\x7d'] ++ ['\n'] := rfl
  rw [hline, String.toList_append, String.toList_append, hopen, hclose, jsonBody]
  simp only [List.cons_append, List.nil_append, List.append_assoc]

/-! ## The lines are read back -/

theorem visibility_takes (visible : Bool) :
    (valueUpTo visibility? ' ').Takes (visibilityWord visible ++ [' ']) visible := by
  cases visible with
  | false => exact valueUpTo_takes rfl (by decide)
  | true => exact valueUpTo_takes rfl (by decide)

theorem truth_takes (truth : Bool) : (valueUpTo truth? '\x7d').Takes
    ((if truth then "true" else "false").toList ++ ['\x7d']) truth := by
  cases truth with
  | false => exact valueUpTo_takes rfl (by decide)
  | true => exact valueUpTo_takes rfl (by decide)

/-- A field is read back as its value is. -/
theorem field_takes {α : Type} {value : Reader α} {written : String} {stop : Char} {a : α}
    (name : String) (h : value.Takes (written.toList ++ [stop]) a) :
    (field name value).Takes ((jsonField name written).toList ++ [stop]) a := by
  have hfield : (jsonField name written).toList ++ [stop] =
      (jsonField name "").toList ++ (written.toList ++ [stop]) := by
    simp only [jsonField, String.append_empty, String.toList_append, List.append_assoc]
  rw [hfield]
  exact (Takes.expect _).bind h

theorem listed_takes (s : Text) : listed.Takes ((Quoted.json s).toList ++ [',']) s := by
  have h := (Quoted.readJson_takes s).bind (f := fun text => do expect [',']; return text)
    ((Takes.expect [',']).bind (.pure s))
  rwa [List.append_nil] at h

theorem listedKind_takes (k : Kind) :
    listedKind.Takes ((Quoted.json k.display.toList).toList ++ [',']) k := by
  have h := (listed_takes k.display.toList).bind
    (f := fun name => Read.ofOption (Kind.ofDisplay? name)) (.ofOption k.ofDisplay?_display)
  rwa [List.append_nil] at h

/-- **Every line of the text format is read back.** -/
theorem textRecord_takes (t : Token) : textRecord.Takes (textLine t).toList
    ⟨t.span.line, t.span.column, t.kind, t.visible, t.text⟩ := by
  have h : textRecord.Takes _ ⟨t.span.line, t.span.column, t.kind, t.visible, t.text⟩ :=
    (number_takes rfl t.span.line).bind <| (number_takes rfl t.span.column).bind <|
    (valueUpTo_takes t.kind.ofDisplay?_display t.kind.not_mem_display.1).bind <|
    (visibility_takes t.visible).bind <| (Quoted.readDisplay_takes t.text).bind <|
    (Takes.expect ['\n']).bind <| .pure _
  rw [toList_textLine, textBody]
  simpa only [List.append_assoc, List.append_nil] using h

/-- **Every line of the JSON format is read back.** -/
theorem jsonRecord_takes (name : String) (t : Token) : jsonRecord.Takes (jsonLine name t).toList
    ⟨name, t.kind, t.kind.id, t.text, t.span.start, t.span.stop, t.span.line, t.span.column,
      t.visible⟩ := by
  have h : jsonRecord.Takes _ ⟨String.ofList name.toList, t.kind, t.kind.id, t.text, t.span.start,
      t.span.stop, t.span.line, t.span.column, t.visible⟩ :=
    (Takes.expect ['\x7b']).bind <| (field_takes "file" (listed_takes name.toList)).bind <|
    (field_takes "kind" (listedKind_takes t.kind)).bind <|
    (field_takes "id" (integer_takes rfl (by decide) t.kind.id)).bind <|
    (field_takes "text" (listed_takes t.text)).bind <|
    (field_takes "start" (number_takes rfl t.span.start)).bind <|
    (field_takes "end" (number_takes rfl t.span.stop)).bind <|
    (field_takes "line" (number_takes rfl t.span.line)).bind <|
    (field_takes "column" (number_takes rfl t.span.column)).bind <|
    (field_takes "visible" (truth_takes t.visible)).bind <|
    (Takes.expect ['\n']).bind <| .pure _
  rw [String.ofList_toList] at h
  have hcomma : ",".toList = [','] := rfl
  rw [toList_jsonLine, jsonBody, jsonFields]
  simpa only [String.intercalate_cons_cons, String.intercalate_singleton, String.toList_append,
    hcomma, List.nil_append, List.cons_append, List.append_assoc, List.append_nil] using h

/-! ## One line for each token -/

theorem not_mem_textBody (t : Token) : '\n' ∉ textBody t := by
  have hdigit : ('\n' : Char).isDigit = false := rfl
  have hline := not_mem_toString_nat hdigit t.span.line
  have hcolumn := not_mem_toString_nat hdigit t.span.column
  have hvisible : '\n' ∉ visibilityWord t.visible := by
    cases t.visible
    · decide
    · decide
  simp only [textBody, List.mem_append, not_or]
  exact ⟨⟨⟨⟨⟨⟨⟨⟨hline, by decide⟩, hcolumn⟩, by decide⟩, t.kind.not_mem_display.2⟩, by decide⟩,
    hvisible⟩, by decide⟩, Quoted.not_mem_display t.text⟩

theorem not_mem_intercalate {c : Char} {separator : String} {parts : List String}
    (hseparator : c ∉ separator.toList) (hparts : ∀ s ∈ parts, c ∉ s.toList) :
    c ∉ (separator.intercalate parts).toList := by
  induction parts with
  | nil => exact List.not_mem_nil
  | cons s parts ih =>
    obtain ⟨hs, hparts⟩ := List.forall_mem_cons.mp hparts
    cases parts with
    | nil => rwa [String.intercalate_singleton]
    | cons s' parts =>
      rw [String.intercalate_cons_cons, String.toList_append, String.toList_append]
      simp only [List.mem_append, not_or]
      exact ⟨⟨hs, hseparator⟩, ih hparts⟩

theorem not_mem_jsonField {name value : String} (hname : '\n' ∉ name.toList)
    (hvalue : '\n' ∉ value.toList) : '\n' ∉ (jsonField name value).toList := by
  simp only [jsonField, String.toList_append, List.mem_append, not_or]
  exact ⟨⟨⟨by decide, hname⟩, by decide⟩, hvalue⟩

theorem not_mem_jsonBody (name : String) (t : Token) : '\n' ∉ jsonBody name t := by
  have hdigit : ('\n' : Char).isDigit = false := rfl
  have htruth : '\n' ∉ (if t.visible then "true" else "false").toList := by
    cases t.visible
    · decide
    · decide
  have hfields : ∀ s ∈ jsonFields name t, '\n' ∉ s.toList := by
    simp only [jsonFields, List.forall_mem_cons]
    exact ⟨not_mem_jsonField (by decide) (Quoted.not_mem_json _),
      not_mem_jsonField (by decide) (Quoted.not_mem_json _),
      not_mem_jsonField (by decide) (not_mem_toString_int hdigit (by decide) _),
      not_mem_jsonField (by decide) (Quoted.not_mem_json _),
      not_mem_jsonField (by decide) (not_mem_toString_nat hdigit _),
      not_mem_jsonField (by decide) (not_mem_toString_nat hdigit _),
      not_mem_jsonField (by decide) (not_mem_toString_nat hdigit _),
      not_mem_jsonField (by decide) (not_mem_toString_nat hdigit _),
      not_mem_jsonField (by decide) htruth, fun _ hnil => absurd hnil List.not_mem_nil⟩
  have hbody : '\n' ∉ (",".intercalate (jsonFields name t)).toList :=
    not_mem_intercalate (by decide) hfields
  rw [jsonBody, List.mem_cons, List.mem_append, not_or, not_or]
  exact ⟨by decide, hbody, by decide⟩

/-- The lines of a token, in the two formats, can be read back. -/
structure Decodes (name : String) (t : Token) : Prop where
  /-- There is one line break, at the end. -/
  one_line : ∀ format, ∃ body, (line format name t).toList = body ++ ['\n'] ∧ '\n' ∉ body
  /-- The line of the text format tells place, kind, visibility and text. -/
  text : whole? textRecord (line .text name t) =
    some ⟨t.span.line, t.span.column, t.kind, t.visible, t.text⟩
  /-- The line of the JSON format tells all but the number of the file, and the name of the file. -/
  json : whole? jsonRecord (line .json name t) =
    some ⟨name, t.kind, t.kind.id, t.text, t.span.start, t.span.stop, t.span.line, t.span.column,
      t.visible⟩

theorem exists_body (format : Format) (name : String) (t : Token) :
    ∃ body, (line format name t).toList = body ++ ['\n'] ∧ '\n' ∉ body := by
  cases format with
  | text => exact ⟨_, toList_textLine t, not_mem_textBody t⟩
  | json => exact ⟨_, toList_jsonLine name t, not_mem_jsonBody name t⟩

/-- **The lines of tokens** are as many as the tokens. -/
theorem count_lines (o : Options) (name : String) (tokens : List Token) :
    (lines o name tokens).toList.count '\n' = tokens.length := by
  induction tokens with
  | nil => rfl
  | cons t tokens ih =>
    obtain ⟨body, hline, hbody⟩ := exists_body o.format name t
    rw [lines] at ih
    rw [lines, List.map_cons, String.join_cons, String.toList_append, List.count_append, ih, hline,
      List.count_append, List.count_eq_zero_of_not_mem hbody, List.count_singleton_self,
      List.length_cons]
    omega

/-- What is written of an input alone: the lines of its tokens in front of the first error. -/
theorem map_out_render (o : Options) (name : String) (content : Text) :
    (render o [⟨name, .ok content⟩]).map Rendering.out =
      ((Lexer.ofSource content).turns o.mode).map fun us =>
        lines o name (Turn.tokensBeforeError us) := by
  have hread : Input.read ⟨name, .ok content⟩ = .ok content := rfl
  -- an error behind the tokens ends the listing, and so does the end of the only file
  obtain ⟨error?, hfile⟩ : ∃ error? : List Turn → Option LexError,
      file o ⟨⟨0⟩, name, content⟩ = ((Lexer.ofSource content).turns o.mode).map fun us =>
        (lines o name (Turn.tokensBeforeError us), error? us) := ⟨_, rfl⟩
  rw [render_singleton, renderFrom, hread]
  simp only [hfile, bind, Except.bind]
  cases (Lexer.ofSource content).turns o.mode with
  | error fault => rfl
  | ok us =>
    cases herror : error? us with
    | some e => simp [Except.map, herror, pure, Except.pure]
    | none => simp [Except.map, herror, renderFrom, Rendering.behind, pure, Except.pure]

/-- **Listings are one line for each token, which can be read back.** The lines of any token are
decoded to what they tell of it, and the listing of a file has as many as the stream over its text
has tokens, up to its end or its first error. -/
theorem decodes_and_count_render : (∀ name t, Decodes name t) ∧ ∀ o name content,
    ((render o [⟨name, .ok content⟩]).map fun r => r.out.toList.count '\n') =
        ((Lexer.ofSource content).turns o.mode).map
          (fun us => (Turn.tokensBeforeError us).length) ∧
      ∀ tokens, tokenizeIn o.mode content = .ok (.ok tokens) →
        ∃ r, render o [⟨name, .ok content⟩] = .ok r ∧ r.out.toList.count '\n' = tokens.length := by
  refine ⟨fun name t => ⟨fun format => exists_body format name t,
    whole?_of_takes (textRecord_takes t), whole?_of_takes (jsonRecord_takes name t)⟩, ?_⟩
  intro o name content
  have hout := map_out_render o name content
  constructor
  · have hcount : ((render o [⟨name, .ok content⟩]).map fun r => r.out.toList.count '\n') =
        ((render o [⟨name, .ok content⟩]).map Rendering.out).map (·.toList.count '\n') := by
      cases render o [⟨name, .ok content⟩] <;> rfl
    rw [hcount, hout]
    cases (Lexer.ofSource content).turns o.mode with
    | error fault => rfl
    | ok us => exact congrArg Except.ok (count_lines o name _)
  · intro tokens htokens
    obtain ⟨us, hus, heq⟩ := Checked.map_eq_ok_iff.mp htokens
    rw [hus] at hout
    obtain ⟨r, hrender, hr⟩ := Checked.map_eq_ok_iff.mp hout
    exact ⟨r, hrender, by rw [hr, count_lines, Turn.tokensBeforeError_of_tokens heq]⟩

/-- A string literal with an escaped quote, a line break and a combining accent, in a file with a
quote in its name: a line for it and one for the end of the input. -/
theorem decodes_and_count_render_quotes :
    ∃ t r, tokenizeIn (Options.mode {}) ['\'', '\\', '\'', '\\', '\n', '\u0301', '\''] =
        .ok (.ok [t, ⟨.eof, [], ⟨8, 8, 2, 2, ⟨0⟩⟩, true⟩]) ∧
      t.text = ['\'', '\\', '\'', '\\', '\n', '\u0301', '\''] ∧ Decodes "a\"b" t ∧
      render {} [⟨"a\"b", .ok ['\'', '\\', '\'', '\\', '\n', '\u0301', '\'']⟩] = .ok r ∧
      r.out.toList.count '\n' = 2 := by
  have htokens : tokenizeIn (Options.mode {})
      ['\'', '\\', '\'', '\\', '\n', '\u0301', '\''] = .ok (.ok [
        ⟨.literal .string, ['\'', '\\', '\'', '\\', '\n', '\u0301', '\''], ⟨0, 8, 1, 0, ⟨0⟩⟩,
          true⟩,
        ⟨.eof, [], ⟨8, 8, 2, 2, ⟨0⟩⟩, true⟩]) := by
    decide +kernel
  obtain ⟨hdecodes, hlines⟩ := decodes_and_count_render
  obtain ⟨r, hrender, hcount⟩ := (hlines {} "a\"b" _).2 _ htokens
  exact ⟨_, r, htokens, rfl, hdecodes _ _, hrender, hcount⟩

end Listing

end Lexis
