import Lexis.Proofs.Recovery

/-!
# Strict and recovering reading agree

Up to the first error reading on is the strict run, step by step. So a source without errors has the
same tokens either way, and where a strict run fails, reading on reports its error first and has the
tokens of the run in front of it.

* `Recovery.steps_of_run`: reading on goes through the tokens of a run.
* `Recovery.exists_steps_of_error`: what reading on adds behind the error that ends a run.
* `Agrees`: what the agreement consists of. `recover_agrees` says that it holds.
-/

namespace Lexis

open Diagnostic

namespace Recovery

variable {l m : Lexer} {ts : List Token}

/-! ## Up to the first error -/

theorem tokens_append (ss rs : List Step) : tokens (ss ++ rs) = tokens ss ++ tokens rs :=
  List.filterMap_append

theorem errors_append (ss rs : List Step) :
    errors (diagnostics (ss ++ rs)) = errors (diagnostics ss) ++ errors (diagnostics rs) := by
  rw [diagnostics, List.filterMap_append]
  exact List.filter_append _ _

/-- The step of a token reports no error. -/
theorem errors_ofToken_cons (l : Lexer) (u : Turn) (t : Token) (ss : List Step) :
    errors (diagnostics (Step.ofToken l u t :: ss)) = errors (diagnostics ss) := by
  rw [Step.ofToken, diagnostics_cons]
  split <;> rfl

/-- **Reading on goes through the tokens of a run** without an error. -/
theorem steps_of_run (hrun : l.Run ts m) :
    ∃ front, steps l = (steps m).map (front ++ ·) ∧ tokens front = ts ∧
      errors (diagnostics front) = [] := by
  induction hrun with
  | nil l =>
    refine ⟨[], ?_, rfl, rfl⟩
    cases steps l <;> rfl
  | @cons l m u t ts hnext ht heof hrun ih =>
    obtain ⟨front, hsteps, htokens, herrors⟩ := ih
    refine ⟨Step.ofToken l u t :: front, ?_, ?_, ?_⟩
    · rw [steps_of_token hnext ht heof, hsteps]
      cases steps m <;> rfl
    · rw [← htokens]
      rfl
    · rw [errors_ofToken_cons, herrors]

/-- **Behind an error** reading on reports it first and finds only tokens that end behind it. -/
theorem exists_steps_of_error {source before : Text} {u : Turn} {e : LexError}
    (h : l.Stands source before) (hsize : Text.byteSize source < 2 ^ 29) (hnext : l.next = .ok u)
    (he : u.reply = .error e) :
    ∃ ss, steps l = .ok ss ∧ (errors (diagnostics ss)).head? = some e.toDiagnostic ∧
      ∀ t ∈ tokens ss, e.span.start < t.span.stop := by
  obtain ⟨hrest, -⟩ := Lexer.next_error hnext he
  obtain ⟨c, m, hskip⟩ := h.exists_skip hsize hrest
  obtain ⟨-, hstands, -⟩ := h.skip hskip
  obtain ⟨ss, hsteps, haccounts⟩ := exists_steps hstands hsize
  refine ⟨Step.ofError u e (some c) :: ss, ?_, rfl, ?_⟩
  · rw [steps_of_error hnext he hskip, hsteps]
    rfl
  · intro t ht
    have hlt := Text.byteSize_lt_append before (List.cons_ne_nil c [])
    rw [h.start_of_error hnext he]
    exact Nat.lt_of_lt_of_le hlt (haccounts.byteSize_le_stop t ht)

/-- **A recovery whose strict run is known**: the tokens of the run come first, and all errors are
reported behind it. -/
theorem recover_of_run {source : Text} {ss : List Step} (hrun : Lexer.Run (.ofSource source) ts m)
    (hsteps : steps m = .ok ss) :
    ∃ handler, recover source .empty = .ok (ts ++ tokens ss, handler) ∧
      errors handler.diagnostics = errors (diagnostics ss) := by
  obtain ⟨front, hfront, rfl, herrors⟩ := steps_of_run hrun
  rw [hsteps] at hfront
  refine ⟨Handler.empty.emitAll (diagnostics (front ++ ss)), ?_, ?_⟩
  · rw [recover_of_steps hfront, tokens_append]
  · rw [Handler.diagnostics_emitAll, Handler.diagnostics_empty, List.nil_append, errors_append,
      herrors, List.nil_append]

end Recovery

/-! ## The agreement -/

/-- The tokens that end at or before the offset `n`. -/
def Token.endingBy (n : Nat) (tokens : List Token) : List Token :=
  tokens.filter fun t => t.span.stop ≤ n

/-- Of the tokens of a run and later ones, those that end by the end of the run are its own. -/
theorem Lexer.Run.endingBy_append {source before : Text} {l m : Lexer} {ts rest : List Token}
    (hrun : l.Run ts m) (h : l.Stands source before)
    (hrest : ∀ t ∈ rest, m.mark.offset < t.span.stop) :
    Token.endingBy m.mark.offset (ts ++ rest) = ts := by
  have hfront : Token.endingBy m.mark.offset ts = ts := by
    refine List.filter_eq_self.mpr fun t ht => ?_
    have hbounds := (hrun.tiles h).bounds_of_mem (List.mem_map_of_mem ht)
    exact decide_eq_true hbounds.2.2
  have hback : Token.endingBy m.mark.offset rest = [] := by
    refine List.filter_eq_nil_iff.mpr fun t ht => ?_
    have := hrest t ht
    simpa using this
  rw [Token.endingBy, List.filter_append]
  exact (congrArg₂ (· ++ ·) hfront hback).trans (List.append_nil ts)

/-- Strict reading, whose answers are `turns` and whose outcome is `result`, agrees with reading on,
which gives `tokens` and leaves `handler`. -/
structure Agrees (turns : List Turn) (result : Except LexError (List Token)) (tokens : List Token)
    (handler : Handler) : Prop where
  /-- Where strict reading gives tokens, reading on gives the same and reports no error. -/
  ok : ∀ strict, result = .ok strict → tokens = strict ∧ errors handler.diagnostics = []
  /-- Where it fails, the first error reported is its error, -/
  error_head : ∀ e, result = .error e → (errors handler.diagnostics).head? = some e.toDiagnostic
  /-- and the tokens that end by the error are those of the strict run. -/
  error_tokens : ∀ e, result = .error e →
    Token.endingBy e.span.start tokens = Turn.tokensBeforeError turns ∧
      ∀ t ∈ Turn.tokensBeforeError turns, t.isEof = false

/-- **Strict and recovering reading agree** on every source of less than `2 ^ 29` bytes, where both
have an answer. -/
theorem recover_agrees (source : Text) (hsize : Text.byteSize source < 2 ^ 29) :
    ∃ turns result tokens handler, (Lexer.ofSource source).turns .full = .ok turns ∧
      tokenize source = .ok result ∧ recover source .empty = .ok (tokens, handler) ∧
      Agrees turns result tokens handler := by
  have hstart := Lexer.stands_ofSource source .unknown
  obtain ⟨turns, hturns⟩ := hstart.exists_turns hsize
  have htokenize : tokenize source = .ok (Turn.tokens turns) := by
    rw [tokenize, tokenizeIn, hturns]
    rfl
  obtain ⟨ts, m, u, hrun, hnext, hstops, htokens, hbefore⟩ := Lexer.exists_run_of_turns hturns
  rw [htokens] at htokenize
  cases hreply : u.reply with
  | ok t =>
    rw [hreply] at htokenize
    have heof : t.isEof = true := by simpa [Lexer.stops, hreply] using hstops
    obtain ⟨handler, hrecover, herrors⟩ :=
      Recovery.recover_of_run hrun (Recovery.steps_of_eof hnext hreply heof)
    refine ⟨turns, _, _, handler, hturns, htokenize, hrecover, ?_, ?_, ?_⟩
    · intro strict hstrict
      obtain rfl := Except.ok.inj hstrict
      exact ⟨rfl, herrors.trans (Recovery.errors_ofToken_cons m u t [])⟩
    · intro e he
      contradiction
    · intro e he
      contradiction
  | error e =>
    rw [hreply] at htokenize hbefore
    have hstands := hrun.stands hstart
    have hoffset := (hstands.start_of_error hnext hreply).trans hstands.offset_eq.symm
    obtain ⟨ss, hsteps, hhead, hstop⟩ := Recovery.exists_steps_of_error hstands hsize hnext hreply
    obtain ⟨handler, hrecover, herrors⟩ := Recovery.recover_of_run hrun hsteps
    have hts : Turn.tokensBeforeError turns = ts := hbefore.trans (List.append_nil ts)
    refine ⟨turns, _, _, handler, hturns, htokenize, hrecover, ?_, ?_, ?_⟩
    · intro strict hstrict
      contradiction
    · intro d hd
      obtain rfl := Except.error.inj hd
      rw [herrors]
      exact hhead
    · intro d hd
      obtain rfl := Except.error.inj hd
      rw [hts]
      rw [hoffset] at hstop ⊢
      exact ⟨hrun.endingBy_append hstart hstop, fun t ht => (hrun.exists_spans hstart ht).1⟩

/-- A stray bracket, of which only reading on warns, and an open string, at which strict reading
fails. -/
theorem recover_agrees_open_string :
    Text.byteSize ['a', ')', '\'', 'é'] < 2 ^ 29 ∧
      ∃ turns result tokens handler,
        (Lexer.ofSource ['a', ')', '\'', 'é']).turns .full = .ok turns ∧
        tokenize ['a', ')', '\'', 'é'] = .ok result ∧
        recover ['a', ')', '\'', 'é'] .empty = .ok (tokens, handler) ∧
        Agrees turns result tokens handler := by
  have hsize : Text.byteSize ['a', ')', '\'', 'é'] < 2 ^ 29 := by decide
  exact ⟨hsize, recover_agrees _ hsize⟩

end Lexis
