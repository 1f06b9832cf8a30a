import Lexis.Proofs.Agreement
import Lexis.Proofs.Brackets
import Lexis.Proofs.LineColumn

/-!
# The event log of a recovery

What a lexer tells a log while a source is read on after errors is an account of the run: the start,
each token and each skipped character in the order of the source, and the end with its totals. The
account can be given from the outside, by the tokens and errors alone.

* `Moment`: a token, or a character that is skipped after an error. `Moment.log` is what a log says
  of some moments.
* `Lexer.ReadsOn`: from one lexer to another by the moments in between.
  `Lexer.ReadsOn.exists_stands` and `Lexer.ReadsOn.counts` say what is read and what is counted on
  the way.
* `Recovery.Reads.exists_readsOn`: the steps of a recovery are moments, and their events those of
  the log.
* `Moment.countP_level_log`, `Moment.countP_isStray_log`: how many entries a log has of each sort.
* `Tells`: what it means that a log tells of a recovery. `exists_log` says that it does.
-/

namespace Lexis

open Diagnostic

/-! ## Moments -/

/-- What happens at a place of a source that is read on after errors. -/
inductive Moment where
  /-- A token is found. -/
  | token (t : Token)
  /-- There is an error, after which the character in front of which it occurred is skipped. -/
  | skip (e : LexError) (c : Char)

namespace Moment

/-- The token that is found. -/
def token? : Moment → Option Token
  | .token t => some t
  | .skip .. => none

/-- The error. -/
def error? : Moment → Option LexError
  | .token _ => none
  | .skip e _ => some e

/-- The tokens of some moments. -/
def tokens (ms : List Moment) : List Token := ms.filterMap token?

/-- The errors of some moments. -/
def errors (ms : List Moment) : List LexError := ms.filterMap error?

/-- The range of bytes of the token or of the skipped character. -/
def range : Moment → Nat × Nat
  | .token t => t.range
  | .skip e c => (e.span.start, e.span.start + c.utf8Size)

/-- The number of open brackets behind a moment. -/
def depthAfter (depth : Nat) : Moment → Nat
  | .token t => t.kind.depthAfter depth
  | .skip .. => depth

/-- What a log says of a moment in front of which `depth` brackets are open. A closing bracket that
comes when none is open is reported first. -/
def events (depth : Nat) : Moment → List Event
  | .token t =>
    let found : Event := .token t.kind t.span.start t.span.stop t.visible
    if t.kind.closes = true ∧ depth = 0 then
      [.unmatchedCloser t.span.line t.span.column t.kind, found]
    else [found]
  | .skip e c => [.skipped e.span.line e.span.column (some c)]

/-- What a log says of some moments in front of which `depth` brackets are open. -/
def log (depth : Nat) : List Moment → List Event
  | [] => []
  | m :: ms => m.events depth ++ log (m.depthAfter depth) ms

end Moment

/-- Whether the event is that of a closing bracket without an open one. -/
def Event.isStray : Event → Bool
  | .unmatchedCloser .. => true
  | _ => false

namespace Lexer

/-! ## Reading on -/

/-- A token changes what is left, the place and the context, is counted, and is told of. -/
theorem eq_of_token {l : Lexer} {u : Turn} {t : Token} (hnext : l.next = .ok u)
    (ht : u.reply = .ok t) (heof : t.isEof = false) :
    u.events = l.tokenEvents t ∧ u.lexer.produced = l.produced + 1 ∧
      u.lexer.ended = l.ended := by
  cases answers_of_next hnext with
  | eof hrest =>
    obtain rfl := Except.ok.inj ht
    contradiction
  | token hrest hstop hlexeme hcontext =>
    obtain rfl := Except.ok.inj ht
    exact ⟨rfl, rfl, rfl⟩
  | error hrest hstop hcause => contradiction

/-- Nothing is told of an error. -/
theorem events_of_error {l : Lexer} {u : Turn} {e : LexError} (hnext : l.next = .ok u)
    (he : u.reply = .error e) : u.events = [] := by
  cases answers_of_next hnext with
  | eof hrest => contradiction
  | token hrest hstop hlexeme hcontext => contradiction
  | error hrest hstop hcause => rfl

/-- Reading on from the first lexer goes through the moments, none of them the end of the input, and
leads to the second. -/
inductive ReadsOn : Lexer → List Moment → Lexer → Prop
  | nil (l : Lexer) : ReadsOn l [] l
  | token {l m : Lexer} {u : Turn} {t : Token} {ms : List Moment} (hnext : l.next = .ok u)
      (ht : u.reply = .ok t) (heof : t.isEof = false) (hrest : ReadsOn u.lexer ms m) :
      ReadsOn l (.token t :: ms) m
  | skip {l k m : Lexer} {u : Turn} {e : LexError} {c : Char} {ms : List Moment}
      (hnext : l.next = .ok u) (he : u.reply = .error e) (hskip : l.skip = .ok (some c, k))
      (hrest : ReadsOn k ms m) : ReadsOn l (.skip e c :: ms) m

namespace ReadsOn

variable {source before : Text} {l m : Lexer} {ms : List Moment}

theorem isEof_eq_false (h : ReadsOn l ms m) : ∀ t ∈ Moment.tokens ms, t.isEof = false := by
  induction h with
  | nil l => simp [Moment.tokens]
  | token hnext ht heof hrest ih => exact List.forall_mem_cons.mpr ⟨heof, ih⟩
  | skip hnext he hskip hrest ih => exact ih

/-- **The moments tile what is read**, and the characters skipped are those of the source. -/
theorem exists_stands (h : ReadsOn l ms m) (hstands : l.Stands source before) :
    ∃ behind, m.Stands source behind ∧
      Tiles (Text.byteSize before) (ms.map Moment.range) (Text.byteSize behind) ∧
      ∀ e c, .skip e c ∈ ms → source.charAt? e.span.start = some c := by
  induction h generalizing before with
  | nil l => exact ⟨before, hstands, rfl, by simp⟩
  | @token l m u t ms hnext ht heof hrest ih =>
    obtain ⟨taken, hne, hspans, hstands', -⟩ := hstands.token hnext ht heof
    obtain ⟨behind, hbehind, htiles, hchars⟩ := ih hstands'
    rw [← hspans.stop_eq] at htiles
    refine ⟨behind, hbehind, ⟨hspans.start_eq, Nat.le_of_lt (hspans.start_lt_stop hne), htiles⟩, ?_⟩
    intro e c hmem
    exact hchars e c (by simpa using hmem)
  | @skip l k m u e c ms hnext he hskip hrest ih =>
    have hstart := hstands.start_of_error hnext he
    obtain ⟨hleft, hstands', -⟩ := hstands.skip hskip
    obtain ⟨behind, hbehind, htiles, hchars⟩ := ih hstands'
    have hstop : Text.byteSize (before ++ [c]) = e.span.start + c.utf8Size := by
      rw [Text.byteSize_append, hstart]
      rfl
    rw [hstop] at htiles
    refine ⟨behind, hbehind, ⟨hstart, Nat.le_add_right _ _, htiles⟩, ?_⟩
    intro d b hmem
    rcases List.mem_cons.mp hmem with heq | hmem
    · obtain ⟨rfl, rfl⟩ := Moment.skip.inj heq
      rw [hstart, ← hstands.append_rest, hleft]
      exact Text.charAt?_append before b k.rest
    · exact hchars d b hmem

/-- **The tokens and the stray closing brackets are counted**, and the end is not told of yet. -/
theorem counts (h : ReadsOn l ms m) :
    m.produced = l.produced + (Moment.tokens ms).length ∧ m.ended = l.ended ∧
      m.context.unmatchedClosers = l.context.unmatchedClosers +
        (Token.strayClosers l.context.depth (Moment.tokens ms)).length := by
  induction h with
  | nil l => exact ⟨rfl, rfl, rfl⟩
  | @token l m u t ms hnext ht heof hrest ih =>
    obtain ⟨hproduced, hended, hstrays⟩ := ih
    obtain ⟨-, hone, hsame⟩ := eq_of_token hnext ht heof
    rw [Context.after_eq_ok (context_of_token hnext ht heof)] at hstrays
    dsimp only at hstrays
    have htokens : Moment.tokens (.token t :: ms) = t :: Moment.tokens ms := rfl
    refine ⟨?_, hended.trans hsame, ?_⟩
    · rw [hproduced, hone, htokens, List.length_cons]
      omega
    · rw [hstrays, htokens, Token.strayClosers]
      split
      · rw [List.length_cons]
        omega
      · rfl
  | @skip l k m u e c ms hnext he hskip hrest ih =>
    obtain ⟨-, hnone, -⟩ | ⟨d, mark, -, -, -, hk⟩ := skip_eq_ok hskip
    · contradiction
    · rw [hk] at ih
      exact ih

end ReadsOn

end Lexer

/-! ## The events of a recovery -/

namespace Recovery

variable {l : Lexer} {ss : List Step}

/-- **The steps of a recovery are moments**, with the end of the input behind them, and their events
are what a log says of the moments. -/
theorem Reads.exists_readsOn (h : Reads l ss) :
    ∃ ms m, l.ReadsOn ms m ∧ m.rest = [] ∧ tokens ss = Moment.tokens ms ++ [m.eofToken] ∧
      errors (diagnostics ss) = (Moment.errors ms).map LexError.toDiagnostic ∧
      ss.flatMap (·.events) = Moment.log l.context.depth ms ++ m.finish.events := by
  induction h with
  | @eof l u t hnext ht heof =>
    obtain ⟨hrest, rfl⟩ := Lexer.eq_finish_of_isEof hnext ht heof
    obtain rfl := Except.ok.inj ht
    refine ⟨[], l, .nil l, hrest, rfl, ?_, ?_⟩
    · rw [errors_ofToken_cons]
      rfl
    · exact List.flatMap_singleton ..
  | @token l u t ss hnext ht heof hrest ih =>
    obtain ⟨ms, m, hreads, hnil, htokens, herrors, hevents⟩ := ih
    refine ⟨.token t :: ms, m, .token hnext ht heof hreads, hnil, ?_, ?_, ?_⟩
    · exact congrArg (t :: ·) htokens
    · rw [errors_ofToken_cons]
      exact herrors
    · obtain ⟨htold, -⟩ := Lexer.eq_of_token hnext ht heof
      rw [Context.after_eq_ok (Lexer.context_of_token hnext ht heof)] at hevents
      have hmoment : u.events = Moment.events l.context.depth (.token t) := by
        rw [htold, Lexer.tokenEvents, Moment.events]
        simp only [Bool.and_eq_true, decide_eq_true_eq]
      rw [List.flatMap_cons, hevents, ← List.append_assoc]
      exact congrArg (· ++ _ ++ _) hmoment
  | @error l k u e c ss hnext he hskip hrest ih =>
    obtain ⟨ms, m, hreads, hnil, htokens, herrors, hevents⟩ := ih
    refine ⟨.skip e c :: ms, m, .skip hnext he hskip hreads, hnil, htokens, ?_, ?_⟩
    · exact congrArg (e.toDiagnostic :: ·) herrors
    · have hdepth : k.context.depth = l.context.depth := by
        obtain ⟨-, hnone, -⟩ | ⟨d, mark, -, -, -, hk⟩ := Lexer.skip_eq_ok hskip
        · contradiction
        · rw [hk]
      rw [List.flatMap_cons, hevents, hdepth, Step.ofError, Lexer.events_of_error hnext he]
      rfl

/-- The diagnostics of a recovery are of two kinds. -/
theorem Accounts.cases_of_mem {source before : Text} {depth : Nat}
    (h : Accounts source before depth ss) :
    ∀ d ∈ diagnostics ss, (∃ e : LexError, d = e.toDiagnostic) ∨
      ∃ t, d = unmatchedCloserWarning t := by
  induction h with
  | eof heof hspans => simp [diagnostics]
  | @token before taken depth t events ss hne hspans hrest ih =>
    intro d hd
    rw [diagnostics_cons] at hd
    rcases List.mem_append.mp hd with hmem | hmem
    · unfold warning? at hmem
      split at hmem
      · exact .inr ⟨t, List.mem_singleton.mp hmem⟩
      · contradiction
    · exact ih d hmem
  | @error before c depth e events ss hstart hrest ih =>
    intro d hd
    rcases List.mem_cons.mp hd with rfl | hmem
    · exact .inl ⟨e, rfl⟩
    · exact ih d hmem

/-- **The diagnostics with the code for stray closing brackets** are as many as those brackets. -/
theorem Accounts.countP_code {source before : Text} {depth : Nat}
    (h : Accounts source before depth ss) :
    (diagnostics ss).countP (·.code = some .unbalancedCloser) =
      (Token.strayClosers depth (tokens ss)).length := by
  have hsame : (diagnostics ss).filter (·.code = some .unbalancedCloser) =
      warnings (diagnostics ss) := by
    refine List.filter_congr fun d hd => ?_
    obtain ⟨e, rfl⟩ | ⟨t, rfl⟩ := h.cases_of_mem d hd
    · have hcode : e.cause.code ≠ .unbalancedCloser := by
        cases e.cause <;> exact of_decide_eq_true rfl
      simp [LexError.toDiagnostic, hcode]
    · rfl
  rw [List.countP_eq_length_filter, hsame, h.warnings_eq, List.length_map]

end Recovery

/-! ## The entries of a log -/

/-- The entries of a sort in a log with its start and its end. -/
theorem Event.countP_between (p : Event → Bool) (start stop : Event) (log : List Event) :
    (start :: (log ++ [stop])).countP p =
      log.countP p + (if p stop then 1 else 0) + if p start then 1 else 0 := by
  rw [List.countP_cons, List.countP_append, List.countP_singleton]

namespace Moment

/-- **The entries of a log by their level**: one trace for each token, one warning for each stray
closing bracket and for each error, and nothing else. -/
theorem countP_level_log (depth : Nat) (ms : List Moment) :
    (log depth ms).countP (·.level = .trace) = (tokens ms).length ∧
      (log depth ms).countP (·.level = .warn) =
        (Token.strayClosers depth (tokens ms)).length + (errors ms).length ∧
      (log depth ms).countP (·.level = .debug) = 0 := by
  induction ms generalizing depth with
  | nil => exact ⟨rfl, rfl, rfl⟩
  | cons m ms ih =>
    obtain ⟨htrace, hwarn, hdebug⟩ := ih (m.depthAfter depth)
    rw [log, List.countP_append, List.countP_append, List.countP_append, htrace, hwarn, hdebug]
    cases m with
    | token t =>
      have htokens : tokens (.token t :: ms) = t :: tokens ms := rfl
      have herrors : errors (.token t :: ms) = errors ms := rfl
      rw [htokens, herrors, Token.strayClosers, events, depthAfter, List.length_cons]
      split
      · simp [Event.level]
        omega
      · simp [Event.level, Nat.add_comm]
    | skip e c =>
      have htokens : tokens (.skip e c :: ms) = tokens ms := rfl
      have herrors : errors (.skip e c :: ms) = e :: errors ms := rfl
      rw [htokens, herrors, events, depthAfter, List.length_cons]
      simp [Event.level]
      omega

/-- One warning for each stray closing bracket is that of the bracket. -/
theorem countP_isStray_log (depth : Nat) (ms : List Moment) :
    (log depth ms).countP (·.isStray) = (Token.strayClosers depth (tokens ms)).length := by
  induction ms generalizing depth with
  | nil => rfl
  | cons m ms ih =>
    rw [log, List.countP_append, ih]
    cases m with
    | token t =>
      have htokens : tokens (.token t :: ms) = t :: tokens ms := rfl
      rw [htokens, Token.strayClosers, events, depthAfter]
      split
      · simp [Event.isStray]
        omega
      · simp [Event.isStray]
    | skip e c => exact Nat.zero_add _

end Moment

/-! ## The log of a recovery -/

/-- The log tells of a recovery that gives the tokens and emits the new diagnostics: it goes through
the moments `ms` of the source, up to the end of the input `last`. -/
structure Tells (source : Text) (tokens : List Token) (new : List Diagnostic) (log : List Event)
    (ms : List Moment) (last : Token) : Prop where
  /-- The tokens are those of the moments and the end of the input. -/
  tokens_eq : tokens = Moment.tokens ms ++ [last]
  /-- The end of the input is the last token and no other. -/
  isEof : last.isEof = true ∧ ∀ t ∈ Moment.tokens ms, t.isEof = false
  /-- The errors reported are those of the moments. -/
  errors_eq : errors new = (Moment.errors ms).map LexError.toDiagnostic
  /-- The moments follow one another in the source, from its start to its end. -/
  tiles : Tiles 0 (ms.map Moment.range) (Text.byteSize source)
  /-- What is skipped after an error is the character of the source at its place. -/
  char : ∀ e c, .skip e c ∈ ms → source.charAt? e.span.start = some c
  /-- The log has the start with the bytes of the source, then the moments one after the other, then
  the end. The totals at the end are the number of traces, one more than the line feeds of the
  source, and the number of the stray closing brackets that were reported, which is that of the
  diagnostics about them. -/
  log_eq : ∃ traces strays,
    log = .started (Text.byteSize source) .unknown ::
      (Moment.log 0 ms ++ [.ended traces (1 + source.count '\n') strays]) ∧
    traces = log.countP (·.level = .trace) ∧ strays = log.countP (·.isStray) ∧
    strays = new.countP (·.code = some .unbalancedCloser)
  /-- The start and the end are the only entries for debugging. -/
  debug : log.countP (·.level = .debug) = 2
  /-- A warning is that of a stray closing bracket or of an error. -/
  warn : log.countP (·.level = .warn) = log.countP (·.isStray) + (errors new).length

/-- **The event log accounts for the run**: a source of less than `2 ^ 29` bytes is read to its end,
and the log tells of its tokens, its errors and its stray closing brackets in their order. -/
theorem exists_log (source : Text) (handler : Handler) (hsize : Text.byteSize source < 2 ^ 29) :
    ∃ tokens handler' new log, recover source handler = .ok (tokens, handler') ∧
      handler'.diagnostics = handler.diagnostics ++ new ∧ recoverEvents source = .ok log ∧
      ∃ ms last, Tells source tokens new log ms last := by
  have hstart := Lexer.stands_ofSource source .unknown
  obtain ⟨ss, hsteps, haccounts⟩ := Recovery.exists_steps hstart hsize
  obtain ⟨ms, m, hreads, hrest, htokens, herrors, hevents⟩ :=
    (Recovery.reads_of_steps hsteps).exists_readsOn
  obtain ⟨behind, hstands, htiles, hchars⟩ := hreads.exists_stands hstart
  obtain ⟨hproduced, hended, hunmatched⟩ := hreads.counts
  obtain ⟨rfl, -⟩ := hstands.spans_eofToken hrest
  -- the end of the input is told of once, with what has been counted on the way
  have hfinish : m.finish.events = [.ended (Moment.tokens ms).length (1 + behind.count '\n')
      (Token.strayClosers 0 (Moment.tokens ms)).length] := by
    have hline : m.mark.line = 1 + behind.count '\n' := congrArg Mark.line hstands.mark_eq
    rw [Lexer.finish, hended, hproduced, hunmatched, hline]
    simp [Lexer.ofSource]
  have hstrays : (Recovery.diagnostics ss).countP (·.code = some .unbalancedCloser) =
      (Token.strayClosers 0 (Moment.tokens ms)).length := by
    have hnone : Token.strayClosers (Token.depthFrom 0 (Moment.tokens ms)) [m.eofToken] = [] := rfl
    rw [haccounts.countP_code, htokens, Lexer.ofSource, Token.strayClosers_append, hnone,
      List.append_nil]
  obtain ⟨htrace, hwarn, hdebug⟩ := Moment.countP_level_log 0 ms
  have hstray := Moment.countP_isStray_log 0 ms
  have hlog : recoverEvents behind = .ok (.started (Text.byteSize behind) .unknown ::
      (Moment.log 0 ms ++ [.ended (Moment.tokens ms).length (1 + behind.count '\n')
        (Token.strayClosers 0 (Moment.tokens ms)).length])) := by
    rw [recoverEvents, hsteps, ← hfinish]
    exact congrArg (fun es => Except.ok (_ :: es)) hevents
  refine ⟨_, _, Recovery.diagnostics ss, _, recover_of_steps hsteps handler,
    handler.diagnostics_emitAll _, hlog, ms, m.eofToken, ?_⟩
  exact {
    tokens_eq := htokens
    isEof := ⟨rfl, hreads.isEof_eq_false⟩
    errors_eq := herrors
    tiles := htiles
    char := hchars
    log_eq := by
      refine ⟨_, _, rfl, ?_, ?_, hstrays.symm⟩
      · rw [Event.countP_between, htrace]
        rfl
      · rw [Event.countP_between, hstray]
        rfl
    debug := by
      rw [Event.countP_between, hdebug]
      rfl
    warn := by
      rw [Event.countP_between, hwarn, Event.countP_between, hstray, herrors, List.length_map]
      rfl }

/-- A stray bracket on the first line, an error on the second: the two warnings, each with its line
and column, and the totals at the end. -/
theorem exists_log_stray_bracket :
    Text.byteSize [')', '\n', 'é', 'x'] < 2 ^ 29 ∧
      ∃ tokens handler' new log, recover [')', '\n', 'é', 'x'] .empty = .ok (tokens, handler') ∧
        handler'.diagnostics = [] ++ new ∧ recoverEvents [')', '\n', 'é', 'x'] = .ok log ∧
        log = [.started 5 ⟨0⟩, .unmatchedCloser 1 0 (.symbol .rightParen),
          .token (.symbol .rightParen) 0 1 true, .token (.layout .newline) 1 2 true,
          .skipped 2 0 (some 'é'), .token .name 4 5 true, .ended 3 2 1] ∧
        ∃ ms last, Tells [')', '\n', 'é', 'x'] tokens new log ms last := by
  have hsize : Text.byteSize [')', '\n', 'é', 'x'] < 2 ^ 29 := by decide
  obtain ⟨tokens, handler', new, log, hrecover, hnew, hlog, htells⟩ :=
    exists_log [')', '\n', 'é', 'x'] .empty hsize
  refine ⟨hsize, tokens, handler', new, log, hrecover, hnew, hlog, ?_, htells⟩
  have hrun : recoverEvents [')', '\n', 'é', 'x'] = .ok [.started 5 ⟨0⟩,
      .unmatchedCloser 1 0 (.symbol .rightParen), .token (.symbol .rightParen) 0 1 true,
      .token (.layout .newline) 1 2 true, .skipped 2 0 (some 'é'), .token .name 4 5 true,
      .ended 3 2 1] := by
    decide +kernel
  exact Except.ok.inj (hlog.symm.trans hrun)

end Lexis
