import Lexis.Lexer.Event
import Lexis.Lexer.Scan
import Lexis.Token.Basic

/-!
# The lexer

A lexer stands at a mark of its source with the rest of the source in front of it. It also carries
a *context* over from token to token: the number of open brackets, whether anything has been
consumed, whether the last token was a continuation, and how many closing brackets had no open one.

* `Lexer.next`: the next token, or the error that stands in its place. An error leaves the lexer
  where it was.
* `Lexer.skip`: one character is passed over.
* `Lexer.iterate`: the tokens as an iteration that ends before the end of the input and after the
  first error.
* `Lexer.length_rest_next_lt`: a token other than the end of the input shortens the rest.
* `Lexer.next_error`: an error occurs only in front of the end of the input and changes nothing.
-/

namespace Lexis

/-- What a lexer carries over from token to token. -/
structure Context where
  /-- The number of open brackets. -/
  depth : Nat := 0
  /-- Whether nothing has been consumed yet. -/
  atStart : Bool := true
  /-- Whether the last token was a continuation. -/
  afterContinuation : Bool := false
  /-- The number of closing brackets that had no open one. -/
  unmatchedClosers : Nat := 0
  deriving DecidableEq, Repr

namespace Context

/-- Whether a bracket is open. -/
def inBrackets (x : Context) : Bool := 0 < x.depth

/-- The context after the brackets of a token are counted: a closing bracket without an open one
leaves the depth at zero. -/
def countBracket (x : Context) (kind : Kind) : Checked Context :=
  if kind.opens then (Checked.word (x.depth + 1)).map fun depth => { x with depth }
  else if kind.closes then
    if x.depth = 0 then
      (Checked.word (x.unmatchedClosers + 1)).map fun n => { x with unmatchedClosers := n }
    else .ok { x with depth := x.depth - 1 }
  else .ok x

/-- The context after a token. -/
def after (x : Context) (kind : Kind) : Checked Context :=
  (x.countBracket kind).map fun y =>
    { y with atStart := false, afterContinuation := kind = .layout .continuation }

end Context

/-- A lexer at work. -/
structure Lexer where
  /-- The file that spans refer to. -/
  file : FileId
  /-- What is still to be read. -/
  rest : Text
  /-- Where the rest starts. -/
  mark : Mark := Mark.origin
  /-- What is carried over from token to token. -/
  context : Context := {}
  /-- The number of tokens produced, the end of the input apart. -/
  produced : Nat := 0
  /-- Whether the end of the input has been reported. -/
  ended : Bool := false
  /-- Whether the iteration has ended. -/
  fused : Bool := false
  deriving DecidableEq, Repr

/-- What a lexer answers when it is asked for a token. -/
structure Turn where
  /-- A token or an error. -/
  reply : Except LexError Token
  /-- The lexer afterwards. -/
  lexer : Lexer
  /-- What happened. -/
  events : List Event

namespace Lexer

/-- A lexer at the start of a source. -/
def ofSource (source : Text) (file : FileId := FileId.unknown) : Lexer := { file, rest := source }

/-- The event that sets the lexer on its source. -/
def startEvent (l : Lexer) : Event := .started (Text.byteSize l.rest) l.file

/-- Whether the next token starts a line. -/
def atLineStart (l : Lexer) : Bool := l.context.atStart || l.mark.column = 0

/-- The surroundings of the rest. -/
def surroundings (l : Lexer) : Surroundings where
  lineStart := l.atLineStart
  inBrackets := l.context.inBrackets
  afterContinuation := l.context.afterContinuation

/-- The span from the mark of the lexer up to an offset. -/
def spanTo (l : Lexer) (stop : Nat) : Span := Span.ofMark l.mark stop l.file

/-! ## The end of the input -/

/-- The token at the end of the input. -/
def eofToken (l : Lexer) : Token := ⟨.eof, [], l.spanTo l.mark.offset, true⟩

/-- The answer at the end of the input, which is reported once. -/
def finish (l : Lexer) : Turn where
  reply := .ok l.eofToken
  lexer := { l with ended := true }
  events :=
    if l.ended then [] else [.ended l.produced l.mark.line l.context.unmatchedClosers]

/-! ## Tokens -/

/-- The events of a token: a closing bracket without an open one is reported first. -/
def tokenEvents (l : Lexer) (t : Token) : List Event :=
  let found : Event := .token t.kind t.span.start t.span.stop t.visible
  if t.kind.closes && l.context.depth = 0 then
    [.unmatchedCloser t.span.line t.span.column t.kind, found]
  else [found]

/-- The answer with a lexeme, where `reading` is what its rule read and `stop` the mark behind
it. -/
def produce (l : Lexer) (lexeme : Lexeme) (reading : Reading) (stop : Mark) : Checked Turn := do
  let context ← l.context.after lexeme.kind
  let token : Token := ⟨lexeme.kind, lexeme.text, l.spanTo stop.offset, lexeme.visible⟩
  return {
    reply := .ok token
    lexer := { l with rest := reading.left, mark := stop, context, produced := l.produced + 1 }
    events := l.tokenEvents token }

/-- The answer with an error: the lexer stays where it is. -/
def refuse (l : Lexer) (cause : Cause) (stop : Mark) : Turn :=
  ⟨.error ⟨cause, l.spanTo stop.offset⟩, l, []⟩

/-- The answer in front of the text `c :: t`. -/
def turn (l : Lexer) (c : Char) (t : Text) : Checked Turn := do
  let scan := scan l.surroundings c t
  let stop ← l.mark.advance scan.reading.taken
  let _ ← Checked.word scan.indent
  match scan.result with
  | .ok lexeme => l.produce lexeme scan.reading stop
  | .error cause => return l.refuse cause stop

/-- The next token, or the error in its place. -/
def next (l : Lexer) : Checked Turn :=
  match l.rest with
  | [] => .ok l.finish
  | c :: t => l.turn c t

/-- Passes over one character, if there is one. -/
def skip (l : Lexer) : Checked (Option Char × Lexer) :=
  match l.rest with
  | [] => .ok (none, l)
  | c :: t => (l.mark.step c).map fun mark =>
    let context := { l.context with atStart := false, afterContinuation := false }
    (some c, { l with rest := t, mark, context })

/-! ## Progress -/

theorem turn_eq_ok {l : Lexer} {c : Char} {t : Text} {u : Turn} (h : l.turn c t = .ok u) :
    ∃ stop, l.mark.advance (scan l.surroundings c t).reading.taken = .ok stop ∧
      (scan l.surroundings c t).indent < Checked.wordSize ∧
      match (scan l.surroundings c t).result with
      | .ok lexeme => l.produce lexeme (scan l.surroundings c t).reading stop = .ok u
      | .error cause => u = l.refuse cause stop := by
  unfold turn at h
  simp only [bind, Except.bind] at h
  split at h
  · contradiction
  rename_i stop hstop
  split at h
  · contradiction
  rename_i n hn
  refine ⟨stop, hstop, (Checked.word_eq_ok_iff.mp hn).1, ?_⟩
  cases hres : (scan l.surroundings c t).result with
  | ok lexeme => simpa only [hres] using h
  | error cause =>
    simp only [hres] at h
    exact (Except.ok.inj h).symm

theorem produce_eq_ok {l : Lexer} {lexeme : Lexeme} {r : Reading} {stop : Mark} {u : Turn}
    (h : l.produce lexeme r stop = .ok u) :
    ∃ context, l.context.after lexeme.kind = .ok context ∧
      u.reply = .ok ⟨lexeme.kind, lexeme.text, l.spanTo stop.offset, lexeme.visible⟩ ∧
      u.lexer = { l with rest := r.left, mark := stop, context, produced := l.produced + 1 } := by
  unfold produce at h
  simp only [bind, Except.bind] at h
  split at h
  · contradiction
  rename_i context hcontext
  obtain rfl := Except.ok.inj h
  exact ⟨context, hcontext, rfl, rfl⟩

/-- An error occurs only in front of the end of the input, and leaves the lexer as it was. -/
theorem next_error {l : Lexer} {u : Turn} {e : LexError} (h : l.next = .ok u)
    (he : u.reply = .error e) : l.rest ≠ [] ∧ u.lexer = l := by
  unfold next at h
  split at h
  · obtain rfl := Except.ok.inj h
    simp [finish] at he
  rename_i c t hrest
  obtain ⟨stop, -, -, hresult⟩ := turn_eq_ok h
  refine ⟨by simp [hrest], ?_⟩
  split at hresult
  · obtain ⟨_, -, hreply, -⟩ := produce_eq_ok hresult
    simp [hreply] at he
  · rw [hresult]
    rfl

/-- A token other than the end of the input shortens the rest. -/
theorem length_rest_next_lt {l : Lexer} {u : Turn} {t : Token} (h : l.next = .ok u)
    (ht : u.reply = .ok t) (heof : t.isEof = false) : u.lexer.rest.length < l.rest.length := by
  unfold next at h
  split at h
  · obtain rfl := Except.ok.inj h
    obtain rfl := Except.ok.inj ht
    simp [Token.isEof, eofToken] at heof
  rename_i c rest hrest
  obtain ⟨stop, -, -, hresult⟩ := turn_eq_ok h
  split at hresult
  · obtain ⟨_, -, -, hlexer⟩ := produce_eq_ok hresult
    have := length_left_scan_le l.surroundings c rest
    rw [hlexer, hrest, List.length_cons]
    exact Nat.lt_succ_of_le this
  · rw [hresult] at ht
    simp [refuse] at ht

theorem length_rest_skip_lt {l m : Lexer} {c : Option Char} (h : l.skip = .ok (c, m))
    (hrest : l.rest ≠ []) : m.rest.length < l.rest.length := by
  unfold skip at h
  split at h
  · contradiction
  rename_i d t heq
  cases hstep : l.mark.step d with
  | error f => simp [hstep, Except.map] at h
  | ok mark =>
    simp only [hstep, Except.map, Except.ok.injEq, Prod.mk.injEq] at h
    rw [← h.2, heq]
    simp

/-- Passing over a character after an error shortens the rest. -/
theorem length_rest_skip_lt_of_error {l m : Lexer} {u : Turn} {e : LexError} {c : Option Char}
    (h : l.next = .ok u) (he : u.reply = .error e) (hskip : u.lexer.skip = .ok (c, m)) :
    m.rest.length < l.rest.length := by
  obtain ⟨hrest, heq⟩ := next_error h he
  rw [heq] at hskip
  exact length_rest_skip_lt hskip hrest

/-! ## Iteration -/

/-- Whether a reply ends an iteration: the end of the input or an error. -/
def stops : Except LexError Token → Bool
  | .ok t => t.isEof
  | .error _ => true

/-- What an iteration gives for a reply: nothing for the end of the input. -/
def item? : Except LexError Token → Option (Except LexError Token)
  | .ok t => if t.isEof then none else some (.ok t)
  | .error e => some (.error e)

/-- The next item of the iteration, nothing once it has ended. -/
def iterate (l : Lexer) : Checked (Option (Except LexError Token) × Lexer) :=
  if l.fused then .ok (none, l)
  else l.next.map fun u =>
    (item? u.reply, { u.lexer with fused := stops u.reply })

end Lexer

end Lexis
