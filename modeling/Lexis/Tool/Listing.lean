import Lexis.Lexer.Tokenize
import Lexis.Tool.Failure
import Lexis.Tool.Settings

/-!
# Token listings

A listing has one line for each token of a file, in one of two formats. Several files are listed
one after the other, in the text format each under a header. The listing ends at the first file
that cannot be read or that has a lexical error; what comes before the error is listed.

* `Listing.line`: the line of a token.
* `Listing.file`: the lines of a file, and its lexical error if it has one.
* `Listing.render`: the listing of several files.
-/

namespace Lexis.Listing

/-- What is listed and how. -/
structure Options where
  /-- Whether only visible tokens are asked for. -/
  visible : Bool := false
  /-- The format that is asked for. -/
  format? : Option Format := none
  /-- The settings for what is not asked for. -/
  settings : ListingSettings := {}
  deriving DecidableEq, Repr

namespace Options

/-- Which tokens are listed. -/
def mode (o : Options) : StreamMode :=
  if o.visible || !o.settings.includeHidden then .visible else .full

/-- The format of the listing. -/
def format (o : Options) : Format := o.format?.getD o.settings.format

end Options

/-! ## Lines -/

/-- The line of a token in the text format. -/
def textLine (t : Token) : String :=
  t.span.display ++ " " ++ t.kind.display ++ (if t.visible then " visible " else " hidden ") ++
    Quoted.display t.text ++ "\n"

/-- A field of a JSON object. -/
def jsonField (name value : String) : String := "\"" ++ name ++ "\":" ++ value

/-- The line of a token of the file with a given name, in the JSON format. -/
def jsonLine (name : String) (t : Token) : String :=
  "\x7b" ++ ",".intercalate [
    jsonField "file" (Quoted.json name.toList),
    jsonField "kind" (Quoted.json t.kind.display.toList),
    jsonField "id" (toString t.kind.id),
    jsonField "text" (Quoted.json t.text),
    jsonField "start" (toString t.span.start),
    jsonField "end" (toString t.span.stop),
    jsonField "line" (toString t.span.line),
    jsonField "column" (toString t.span.column),
    jsonField "visible" (if t.visible then "true" else "false")] ++ "\x7d\n"

/-- The line of a token. -/
def line (format : Format) (name : String) (t : Token) : String :=
  match format with
  | .text => textLine t
  | .json => jsonLine name t

/-! ## Files -/

/-- The lines of a file up to its end or its first lexical error, which is given too. -/
def file (o : Options) (f : SourceFile) : Checked (String × Option LexError) :=
  ((Lexer.ofSource f.content f.id).turns o.mode).map fun turns =>
    (String.join ((Turn.tokensBeforeError turns).map (line o.format f.name)),
      match Turn.tokens turns with
      | .ok _ => none
      | .error e => some e)

/-- The header of a file: its name, behind an empty line for all files but the first. -/
def header (index : Nat) (name : String) : String :=
  (if index = 0 then "" else "\n") ++ "==> " ++ name ++ " <==\n"

/-- What has been listed, what is reported beside it, and whether it ended well. -/
structure Rendering where
  /-- The listing. -/
  out : String := ""
  /-- The diagnostic of the lexical error. -/
  report : String := ""
  /-- The failure at which the listing ended. -/
  result : Except Failure Unit := .ok ()

/-- The rendering with more of the listing in front. -/
def Rendering.behind (front : String) (r : Rendering) : Rendering :=
  { r with out := front ++ r.out }

/-- The listing of the files from number `index` on. -/
def renderFrom (o : Options) (headers : Bool) (index : Nat) : List Input → Checked Rendering
  | [] => .ok {}
  | input :: inputs =>
    match input.read with
    | .error failure => .ok { result := .error failure }
    | .ok content => do
      let f : SourceFile := ⟨⟨index⟩, input.name, content⟩
      let (lines, error?) ← file o f
      let out := (if headers then header index input.name else "") ++ lines
      match error? with
      | some e =>
        let report := (e.toDiagnosticIn f).display ++ "\n"
        return { out, report, result := .error (.lexical e) }
      | none => return (← renderFrom o headers (index + 1) inputs).behind out

/-- The listing of files. Headers are for several files in the text format. -/
def render (o : Options) (inputs : List Input) : Checked Rendering :=
  if inputs.isEmpty then .ok { result := .error .noFiles }
  else renderFrom o (decide (1 < inputs.length) && o.format = .text) 0 inputs

end Lexis.Listing
