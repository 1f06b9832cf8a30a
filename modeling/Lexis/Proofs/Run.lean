import Lexis.Lexer.Tokenize
import Lexis.Proofs.Standing

/-!
# Strict runs

A strict run asks a lexer for tokens until it meets the end of the input or an error. The list of
its answers is given by recursion on what is left; here it is taken apart into the tokens of the run
and the answer that ends it.

* `Lexer.turns_of_stops`, `Lexer.turns_of_not_stops`: one step of the recursion, in either mode.
* `Lexer.Run`: from one lexer to another by the tokens in between.
* `Lexer.exists_run_of_turns`: the answers of a strict run are those of a `Lexer.Run` and one more,
  and `Lexer.Run.tokens_turns` says so in the other direction.
* `exists_run_of_tokenize`: the tokens of a source are those of a run, with the end of the input;
  `exists_run_of_tokenize_error`: its error is the answer that ends a run.
* `Lexer.Stands.exists_turns`: on a source of less than `2 ^ 29` bytes a strict run has no fault.
-/

namespace Lexis

/-- A token in front of the answers of a run is in front of their tokens. -/
theorem Turn.map_tokens_cons {u : Turn} {t : Token} (ht : u.reply = .ok t)
    (us : Checked (List Turn)) :
    (us.map (u :: ·)).map Turn.tokens = (us.map Turn.tokens).map (Except.map (t :: ·)) := by
  cases us with
  | error f => rfl
  | ok us => simp [Except.map, Turn.tokens, ht]

namespace Lexer

/-! ## The answers of a run -/

/-- In full, the next token that is shown is the next token. -/
theorem nextShown_full (l : Lexer) : l.nextShown .full = l.next := by
  cases hnext : l.next with
  | error f => exact nextShown_of_fault hnext
  | ok u =>
    cases hreply : u.reply with
    | error e => exact nextShown_of_error hnext hreply
    | ok t => exact nextShown_of_shown hnext hreply rfl

theorem turns_of_fault {mode : StreamMode} {l : Lexer} {f : Fault}
    (h : l.nextShown mode = .error f) : l.turns mode = .error f := by
  rw [turns]
  split <;> simp_all

theorem turns_of_stops {mode : StreamMode} {l : Lexer} {u : Turn} (h : l.nextShown mode = .ok u)
    (hstops : stops u.reply = true) : l.turns mode = .ok [u] := by
  rw [turns]
  split
  · simp_all
  · rename_i v hv
    obtain rfl : u = v := Except.ok.inj (h.symm.trans hv)
    exact dif_pos hstops

theorem turns_of_not_stops {mode : StreamMode} {l : Lexer} {u : Turn}
    (h : l.nextShown mode = .ok u) (hstops : stops u.reply = false) :
    l.turns mode = (u.lexer.turns mode).map (u :: ·) := by
  rw [turns]
  split
  · simp_all
  · rename_i v hv
    obtain rfl : u = v := Except.ok.inj (h.symm.trans hv)
    exact dif_neg (by simp [hstops])

/-! ## Runs -/

/-- Asked again and again, the first lexer gives the tokens, none of them the end of the input, and
becomes the second. -/
inductive Run : Lexer → List Token → Lexer → Prop
  | nil (l : Lexer) : Run l [] l
  | cons {l m : Lexer} {u : Turn} {t : Token} {ts : List Token} (hnext : l.next = .ok u)
      (ht : u.reply = .ok t) (heof : t.isEof = false) (hrun : Run u.lexer ts m) :
      Run l (t :: ts) m

/-- An answer that does not end a run is a token. -/
theorem exists_token_of_not_stops {reply : Except LexError Token} (h : stops reply = false) :
    ∃ t, reply = .ok t ∧ t.isEof = false := by
  cases reply with
  | error e => contradiction
  | ok t => exact ⟨t, rfl, h⟩

/-- **The answers of a strict run**: the tokens of a run, and then the end of the input or an
error. -/
theorem exists_run_of_turns {l : Lexer} {us : List Turn} (h : l.turns .full = .ok us) :
    ∃ ts m u, Run l ts m ∧ m.next = .ok u ∧ stops u.reply = true ∧
      Turn.tokens us = u.reply.map (fun t => ts ++ [t]) ∧
      Turn.tokensBeforeError us = ts ++ u.reply.toOption.toList := by
  -- on what is left, as in the recursion that lists the answers
  induction hn : l.rest.length using Nat.strongRecOn generalizing l us with
  | ind n ih =>
    subst hn
    cases hnext : l.next with
    | error f =>
      rw [turns_of_fault ((nextShown_full l).trans hnext)] at h
      contradiction
    | ok u =>
      have hshown := (nextShown_full l).trans hnext
      cases hstops : stops u.reply with
      | true =>
        rw [turns_of_stops hshown hstops] at h
        obtain rfl := Except.ok.inj h
        refine ⟨[], l, u, .nil l, hnext, hstops, ?_, ?_⟩
        · cases hreply : u.reply <;> simp [Turn.tokens, hreply, Except.map]
        · cases hreply : u.reply <;> simp [Turn.tokensBeforeError, hreply, Except.toOption]
      | false =>
        rw [turns_of_not_stops hshown hstops] at h
        obtain ⟨vs, hvs, rfl⟩ := Checked.map_eq_ok_iff.mp h
        obtain ⟨t, hreply, heof⟩ := exists_token_of_not_stops hstops
        have hlt := length_rest_next_lt hnext hreply heof
        obtain ⟨ts, m, v, hrun, hv, hvstops, htokens, hbefore⟩ := ih _ hlt hvs rfl
        refine ⟨t :: ts, m, v, .cons hnext hreply heof hrun, hv, hvstops, ?_, ?_⟩
        · simp only [Turn.tokens, hreply, htokens]
          cases v.reply <;> rfl
        · simp only [Turn.tokensBeforeError, hreply, hbefore, List.cons_append]

/-- The tokens of a run are in front of those of a strict run from its end. -/
theorem Run.map_tokens_turns {l m : Lexer} {ts : List Token} (hrun : Run l ts m) :
    (l.turns .full).map Turn.tokens =
      ((m.turns .full).map Turn.tokens).map (Except.map (ts ++ ·)) := by
  induction hrun with
  | nil l => rcases (l.turns .full).map Turn.tokens with f | e | ts <;> rfl
  | @cons l m u t ts hnext ht heof _ ih =>
    have hgo : stops u.reply = false := by rwa [ht]
    rw [turns_of_not_stops ((nextShown_full l).trans hnext) hgo, Turn.map_tokens_cons ht, ih]
    rcases (m.turns .full).map Turn.tokens with f | e | ts <;> rfl

/-- A run that leads to the end of the input or an error gives all tokens of a strict run. -/
theorem Run.tokens_turns {l m : Lexer} {ts : List Token} {u : Turn} (hrun : Run l ts m)
    (hnext : m.next = .ok u) (hstops : stops u.reply = true) :
    (l.turns .full).map Turn.tokens = .ok (u.reply.map fun t => ts ++ [t]) := by
  rw [hrun.map_tokens_turns, turns_of_stops ((nextShown_full m).trans hnext) hstops]
  cases hreply : u.reply <;> simp [Except.map, Turn.tokens, hreply]

/-- On a source of less than `2 ^ 29` bytes a strict run has no fault. -/
theorem Stands.exists_turns {source before : Text} {l : Lexer} (h : l.Stands source before)
    (hsize : Text.byteSize source < 2 ^ 29) : ∃ us, l.turns .full = .ok us := by
  induction hn : l.rest.length using Nat.strongRecOn generalizing l before with
  | ind n ih =>
    subst hn
    obtain ⟨u, hnext⟩ := h.exists_next hsize
    have hshown := (nextShown_full l).trans hnext
    cases hstops : stops u.reply with
    | true => exact ⟨_, turns_of_stops hshown hstops⟩
    | false =>
      obtain ⟨t, hreply, heof⟩ := exists_token_of_not_stops hstops
      obtain ⟨taken, -, -, hstands, -⟩ := h.token hnext hreply heof
      obtain ⟨us, hus⟩ := ih _ (length_rest_next_lt hnext hreply heof) hstands rfl
      exact ⟨u :: us, by rw [turns_of_not_stops hshown hstops, hus]; rfl⟩

end Lexer

/-- **The tokens of a source** are those of a run up to its end, and the end of the input. -/
theorem exists_run_of_tokenize {source : Text} {tokens : List Token}
    (h : tokenize source = .ok (.ok tokens)) :
    ∃ ts m, Lexer.Run (.ofSource source) ts m ∧ m.rest = [] ∧ tokens = ts ++ [m.eofToken] := by
  obtain ⟨us, hus, htokens⟩ := Checked.map_eq_ok_iff.mp h
  obtain ⟨ts, m, u, hrun, hnext, hstops, heq, -⟩ := Lexer.exists_run_of_turns hus
  rw [htokens] at heq
  cases hreply : u.reply with
  | error e => simp [hreply, Except.map] at heq
  | ok t =>
    have heof : t.isEof = true := by simpa [Lexer.stops, hreply] using hstops
    obtain ⟨hrest, rfl⟩ := Lexer.eq_finish_of_isEof hnext hreply heof
    obtain rfl := Except.ok.inj hreply
    exact ⟨ts, m, hrun, hrest, Except.ok.inj heq⟩

/-- **The error of a source** is the answer behind the tokens of a run. -/
theorem exists_run_of_tokenize_error {source : Text} {e : LexError}
    (h : tokenize source = .ok (.error e)) :
    ∃ ts m u, Lexer.Run (.ofSource source) ts m ∧ m.next = .ok u ∧ u.reply = .error e := by
  obtain ⟨us, hus, htokens⟩ := Checked.map_eq_ok_iff.mp h
  obtain ⟨ts, m, u, hrun, hnext, -, heq, -⟩ := Lexer.exists_run_of_turns hus
  rw [htokens] at heq
  cases hreply : u.reply with
  | ok t => simp [hreply, Except.map] at heq
  | error d =>
    rw [hreply] at heq
    obtain rfl := Except.error.inj heq
    exact ⟨ts, m, u, hrun, hnext, hreply⟩

end Lexis
