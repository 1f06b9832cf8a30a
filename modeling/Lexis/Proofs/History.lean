import Lexis.Proofs.Brackets
import Lexis.Proofs.Calls

/-!
# The history of a session

What a lexer carries over from token to token is determined by what its session has done so far: the
tokens it has produced and the characters it has passed over. Errors, the end of the input and an
iteration that has ended leave no trace.

* `Lexer.Entry`: a call of a session with the lexers in front of it and behind it.
* `Lexer.session`: the calls of a session one after the other, with their history.
* `Lexer.Records`: the history has led to what the lexer carries over. `Lexer.Records.call` and
  `Lexer.Reachable.exists_session` say that one call and a whole session preserve it.
* `Lexer.Explains`: the history accounts for the lexer, with the brackets in closed form.
* `Lexer.session_explains`: every sequence of calls has a history that accounts for its end.
-/

namespace Lexis

namespace Lexer

/-- A call of a session. -/
structure Entry where
  /-- The lexer in front of the call. -/
  before : Lexer
  /-- What the call gave back. -/
  result : Call.Result
  /-- The lexer behind the call. -/
  after : Lexer

namespace Entry

/-- Whether the call consumed some of the source. -/
def consumes (e : Entry) : Bool := e.before.mark.offset < e.after.mark.offset

/-- Whether the call produced a continuation. -/
def isContinuation (e : Entry) : Bool :=
  e.result.token?.any (·.kind = .layout .continuation)

/-- The tokens that the calls of a history produced. -/
def tokens (history : List Entry) : List Token := history.filterMap (·.result.token?)

/-- The last call of a history that consumed some of the source. -/
def lastConsumer? (history : List Entry) : Option Entry := (history.filter (·.consumes)).getLast?

theorem tokens_concat (history : List Entry) (e : Entry) :
    tokens (history ++ [e]) = tokens history ++ e.result.token?.toList := by
  rw [tokens, List.filterMap_append]
  cases h : e.result.token? <;> simp [tokens, h]

theorem lastConsumer?_concat (history : List Entry) (e : Entry) :
    lastConsumer? (history ++ [e]) = if e.consumes then some e else lastConsumer? history := by
  rw [lastConsumer?, List.filter_append]
  cases h : e.consumes <;> simp [lastConsumer?, h]

end Entry

/-- The calls of a session one after the other: their history and the lexer behind them. -/
def session (l : Lexer) : List Call → Checked (List Entry × Lexer)
  | [] => .ok ([], l)
  | c :: calls => do
    let (r, m) ← l.call c
    let (history, k) ← m.session calls
    return (⟨l, r, m⟩ :: history, k)

theorem session_cons_of_ok {l m k : Lexer} {c : Call} {r : Call.Result} {calls : List Call}
    {history : List Entry} (hcall : l.call c = .ok (r, m))
    (hsession : m.session calls = .ok (history, k)) :
    l.session (c :: calls) = .ok (⟨l, r, m⟩ :: history, k) := by
  simp [session, hcall, hsession, bind, Except.bind, pure, Except.pure]

/-! ## What one call preserves -/

/-- The history has led to what the lexer carries over: the brackets of its tokens are counted, and
a continuation is remembered if it is what was consumed last. -/
structure Records (history : List Entry) (l : Lexer) : Prop where
  counts : l.context.Counts (Entry.tokens history)
  afterContinuation : l.context.afterContinuation =
    (Entry.lastConsumer? history).any (·.isContinuation)

theorem records_ofSource (source : Text) (file : FileId) : Records [] (ofSource source file) :=
  ⟨⟨rfl, rfl⟩, rfl⟩

/-- **One call is recorded.** -/
theorem Records.call {source before : Text} {l m : Lexer} {history : List Entry}
    (h : Records history l) (hstands : l.Stands source before) {c : Call} {r : Call.Result}
    (hcall : l.call c = .ok (r, m)) : Records (history ++ [⟨l, r, m⟩]) m := by
  cases hstands.moves_of_call hcall with
  | stays htoken hmark hcontext =>
    have hconsumes : Entry.consumes ⟨l, r, m⟩ = false := by simp [Entry.consumes, hmark]
    refine ⟨?_, ?_⟩
    · rw [hcontext, Entry.tokens_concat, htoken]
      simpa using h.counts
    · rw [hcontext, h.afterContinuation, Entry.lastConsumer?_concat, hconsumes]
      rfl
  | @token t htoken hlt hcontext =>
    have hconsumes : Entry.consumes ⟨l, r, m⟩ = true := decide_eq_true hlt
    refine ⟨?_, ?_⟩
    · rw [Entry.tokens_concat, htoken]
      exact h.counts.after hcontext
    · rw [Context.after_eq_ok hcontext, Entry.lastConsumer?_concat, hconsumes, if_pos rfl]
      simp [Entry.isContinuation, htoken]
  | skips htoken hlt hcontext =>
    have hconsumes : Entry.consumes ⟨l, r, m⟩ = true := decide_eq_true hlt
    refine ⟨?_, ?_⟩
    · rw [hcontext, Entry.tokens_concat, htoken]
      simpa using ⟨h.counts.depth_eq, h.counts.unmatchedClosers_eq⟩
    · rw [hcontext, Entry.lastConsumer?_concat, hconsumes, if_pos rfl]
      simp [Entry.isContinuation, htoken]

/-! ## What a history accounts for -/

/-- The history accounts for the lexer that it has led to. -/
structure Explains (history : List Entry) (l : Lexer) : Prop where
  /-- The unmatched closing brackets are as many as closing brackets outnumber opening ones at most,
  over all beginnings of the tokens produced. -/
  unmatchedClosers : IsGreatest (Token.excesses (Entry.tokens history)) l.context.unmatchedClosers
  /-- The depth is the number of opening brackets less that of closing ones, raised by the unmatched
  ones. -/
  depth : (l.context.depth : Int) = Token.openers (Entry.tokens history) -
    Token.closers (Entry.tokens history) + l.context.unmatchedClosers
  /-- Nothing has been consumed exactly at the start of the source, -/
  atStart : l.context.atStart = true ↔ l.mark.offset = 0
  /-- so a line starts exactly where what comes next has column zero. -/
  atLineStart : ∃ u, l.next = .ok u ∧ (l.atLineStart = true ↔ (replySpan u.reply).column = 0)
  /-- A continuation is remembered exactly if it is what was consumed last. -/
  afterContinuation : l.context.afterContinuation =
    (Entry.lastConsumer? history).any (·.isContinuation)

theorem Records.explains {source : Text} {file : FileId} {l : Lexer} {history : List Entry}
    (h : Records history l) (hreachable : Reachable source file l)
    (hsize : Text.byteSize source < 2 ^ 29) : Explains history l where
  unmatchedClosers := by
    rw [h.counts.unmatchedClosers_eq]
    exact Token.isGreatest_excesses _
  depth := by
    rw [h.counts.depth_eq, h.counts.unmatchedClosers_eq]
    exact Token.depth_eq _
  atStart := hreachable.atStart_iff
  atLineStart := by
    obtain ⟨before, hstands⟩ := hreachable.stands
    obtain ⟨u, hnext⟩ := hstands.exists_next hsize
    obtain ⟨stop, hspan⟩ := replySpan_of_next hnext
    refine ⟨u, hnext, ?_⟩
    rw [hspan]
    exact hreachable.atLineStart_iff
  afterContinuation := h.afterContinuation

/-- **A session is recorded**: on a source of less than `2 ^ 29` bytes every sequence of calls runs
to its end, and its history goes on from the one in front of it. -/
theorem Reachable.exists_session {source : Text} {file : FileId} {l : Lexer} {past : List Entry}
    (h : Reachable source file l) (hsize : Text.byteSize source < 2 ^ 29) (hpast : Records past l)
    (calls : List Call) :
    ∃ history m, l.session calls = .ok (history, m) ∧ Reachable source file m ∧
      Records (past ++ history) m := by
  induction calls generalizing l past with
  | nil => exact ⟨[], l, rfl, h, by simpa using hpast⟩
  | cons c calls ih =>
    obtain ⟨before, hstands⟩ := h.stands
    obtain ⟨r, m, hcall⟩ := h.exists_call hsize c
    obtain ⟨history, k, hsession, hreachable, hrecords⟩ :=
      ih (h.call hcall) (hpast.call hstands hcall)
    refine ⟨⟨l, r, m⟩ :: history, k, session_cons_of_ok hcall hsession, hreachable, ?_⟩
    simpa using hrecords

/-- **The state of a session is a function of its history**: on a source of less than `2 ^ 29` bytes
every sequence of calls runs to its end, and what it has produced and consumed accounts for what the
lexer carries over. -/
theorem session_explains (source : Text) (file : FileId) (calls : List Call)
    (hsize : Text.byteSize source < 2 ^ 29) :
    ∃ history l, (ofSource source file).session calls = .ok (history, l) ∧
      Explains history l := by
  obtain ⟨history, l, hsession, hreachable, hrecords⟩ :=
    Reachable.start.exists_session hsize (records_ofSource source file) calls
  exact ⟨history, l, hsession, hrecords.explains hreachable hsize⟩

/-- A stray bracket, an open one, a continuation and a character that no rule takes: its error
leaves the continuation remembered. -/
theorem session_explains_error :
    Text.byteSize [')', '(', '\\', '\n', '$'] < 2 ^ 29 ∧
      ∃ history l,
        (ofSource [')', '(', '\\', '\n', '$'] ⟨3⟩).session
          [.next, .iterate, .next, .iterate, .next] = .ok (history, l) ∧
        l.context = ⟨1, false, true, 1⟩ ∧ Explains history l := by
  have hsize : Text.byteSize [')', '(', '\\', '\n', '$'] < 2 ^ 29 := by decide
  obtain ⟨history, l, hsession, hexplains⟩ :=
    session_explains [')', '(', '\\', '\n', '$'] ⟨3⟩ [.next, .iterate, .next, .iterate, .next] hsize
  have hcontext : ((ofSource [')', '(', '\\', '\n', '$'] ⟨3⟩).session
      [.next, .iterate, .next, .iterate, .next]).map (·.2.context) = .ok ⟨1, false, true, 1⟩ := rfl
  rw [hsession] at hcontext
  exact ⟨hsize, history, l, hsession, Except.ok.inj hcontext, hexplains⟩

end Lexer

end Lexis
