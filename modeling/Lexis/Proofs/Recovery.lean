import Lexis.Proofs.Accounting

/-!
# Reading on after errors

Reading on never gets stuck: a token or the character skipped after an error shortens what is left.
The steps taken on the way are accounted for, so what is lost of a source is what is reported.

* `Recovery.steps_of_eof`, `Recovery.steps_of_token`, `Recovery.steps_of_error`: one step of the
  recursion.
* `Recovery.Reads`: the steps from a lexer to the end of the input, as a relation.
  `Recovery.Reads.accounts` gives their account.
* `Recovery.exists_steps`: there are steps from where a lexer stands.
* `Recovered`: what the tokens and new diagnostics of a recovery have to do with the source.
  `exists_recover` says that every recovery is such a one.
-/

namespace Lexis

namespace Recovery

variable {l m : Lexer} {u : Turn}

/-! ## One step -/

theorem steps_of_eof {t : Token} (hnext : l.next = .ok u) (ht : u.reply = .ok t)
    (heof : t.isEof = true) : steps l = .ok [Step.ofToken l u t] := by
  rw [steps]
  split
  · simp_all
  · rename_i v hv
    obtain rfl : u = v := Except.ok.inj (hnext.symm.trans hv)
    split
    · rename_i s hs
      obtain rfl : t = s := Except.ok.inj (ht.symm.trans hs)
      exact dif_pos heof
    · simp_all

theorem steps_of_token {t : Token} (hnext : l.next = .ok u) (ht : u.reply = .ok t)
    (heof : t.isEof = false) :
    steps l = (steps u.lexer).map (Step.ofToken l u t :: ·) := by
  rw [steps]
  split
  · simp_all
  · rename_i v hv
    obtain rfl : u = v := Except.ok.inj (hnext.symm.trans hv)
    split
    · rename_i s hs
      obtain rfl : t = s := Except.ok.inj (ht.symm.trans hs)
      exact dif_neg (by simp [heof])
    · simp_all

theorem steps_of_error {e : LexError} {skipped : Option Char} (hnext : l.next = .ok u)
    (he : u.reply = .error e) (hskip : l.skip = .ok (skipped, m)) :
    steps l = (steps m).map (Step.ofError u e skipped :: ·) := by
  have hsame := (Lexer.next_error hnext he).2
  rw [steps]
  split
  · simp_all
  · rename_i v hv
    obtain rfl : u = v := Except.ok.inj (hnext.symm.trans hv)
    split
    · simp_all
    · rename_i d hd
      obtain rfl : e = d := Except.error.inj (he.symm.trans hd)
      rw [← hsame] at hskip
      split
      · simp_all
      · rename_i c k hk
        obtain ⟨rfl, rfl⟩ := Prod.mk.inj (Except.ok.inj (hskip.symm.trans hk))
        rfl

/-- A closing bracket is warned of when it comes with no bracket open. -/
theorem ofToken_eq {t : Token} (h : l.context.after t.kind = .ok u.lexer.context) :
    Step.ofToken l u t = ⟨some t, warning? l.context.depth t, u.events⟩ := by
  rw [Step.ofToken, warning?, Context.after_eq_ok h]
  congr 1
  split <;> simp_all

/-! ## The steps of a recovery -/

/-- Reading on from a lexer takes the steps: tokens, and errors each with the character passed over
behind it, up to the end of the input. -/
inductive Reads : Lexer → List Step → Prop
  /-- The end of the input. -/
  | eof {l : Lexer} {u : Turn} {t : Token} (hnext : l.next = .ok u) (ht : u.reply = .ok t)
      (heof : t.isEof = true) : Reads l [Step.ofToken l u t]
  /-- A token, and the steps behind it. -/
  | token {l : Lexer} {u : Turn} {t : Token} {ss : List Step} (hnext : l.next = .ok u)
      (ht : u.reply = .ok t) (heof : t.isEof = false) (hrest : Reads u.lexer ss) :
      Reads l (Step.ofToken l u t :: ss)
  /-- An error, and the steps behind the character in front of which it occurred. -/
  | error {l m : Lexer} {u : Turn} {e : LexError} {c : Char} {ss : List Step}
      (hnext : l.next = .ok u) (he : u.reply = .error e) (hskip : l.skip = .ok (some c, m))
      (hrest : Reads m ss) : Reads l (Step.ofError u e (some c) :: ss)

theorem reads_of_steps {ss : List Step} (h : steps l = .ok ss) : Reads l ss := by
  fun_induction steps l generalizing ss with
  | case1 l f hnext => contradiction
  | case2 l u hnext t ht heof =>
    obtain rfl := Except.ok.inj h
    exact .eof hnext ht heof
  | case3 l u hnext t ht heof hlt ih =>
    obtain ⟨rest, hrest, rfl⟩ := Checked.map_eq_ok_iff.mp h
    exact .token hnext ht (by simpa using heof) (ih hrest)
  | case4 l u hnext e he f hskip => contradiction
  | case5 l u hnext e he char? m hskip hlt ih =>
    obtain ⟨rest, hrest, rfl⟩ := Checked.map_eq_ok_iff.mp h
    obtain ⟨hne, hsame⟩ := Lexer.next_error hnext he
    rw [hsame] at hskip
    obtain ⟨hnil, -⟩ | ⟨c, mark, -, -, rfl, -⟩ := Lexer.skip_eq_ok hskip
    · contradiction
    · exact .error hnext he hskip (ih hrest)

/-- **The steps are accounted for**, from where the lexer stands to the end of the source. -/
theorem Reads.accounts {source before : Text} {ss : List Step} (hreads : Reads l ss)
    (h : l.Stands source before) : Accounts source before l.context.depth ss := by
  induction hreads generalizing before with
  | @eof l u t hnext hreply heof =>
    obtain ⟨hrest, rfl⟩ := Lexer.eq_finish_of_isEof hnext hreply heof
    obtain ⟨rfl, hspans⟩ := h.spans_eofToken hrest
    obtain rfl := Except.ok.inj hreply
    -- the count of stray brackets stays, so nothing is warned of
    have hstep : Step.ofToken l l.finish l.eofToken = ⟨some l.eofToken, none, l.finish.events⟩ := by
      simp [Step.ofToken, Lexer.finish]
    rw [hstep]
    exact .eof heof hspans
  | @token l u t ss hnext hreply heof hrest ih =>
    obtain ⟨taken, hne, hspans, hstands, hcontext⟩ := h.token hnext hreply heof
    have haccounts := ih hstands
    rw [Context.after_eq_ok hcontext] at haccounts
    rw [ofToken_eq hcontext]
    exact .token hne hspans haccounts
  | @error l m u e c ss hnext hreply hskip hrest ih =>
    obtain ⟨-, hstands, hcontext⟩ := h.skip hskip
    have haccounts := ih hstands
    rw [hcontext] at haccounts
    exact .error (h.start_of_error hnext hreply) haccounts

/-- **The steps from where a lexer stands** reach the end of the source and are accounted for. -/
theorem exists_steps {source before : Text} (h : l.Stands source before)
    (hsize : Text.byteSize source < 2 ^ 29) :
    ∃ ss, steps l = .ok ss ∧ Accounts source before l.context.depth ss := by
  have hexists : ∃ ss, steps l = .ok ss := by
    -- on what is left: a token and a skipped character each shorten it
    induction hn : l.rest.length using Nat.strongRecOn generalizing l before with
    | ind n ih =>
      subst hn
      obtain ⟨u, hnext⟩ := h.exists_next hsize
      cases hreply : u.reply with
      | ok t =>
        cases heof : t.isEof with
        | true => exact ⟨_, steps_of_eof hnext hreply heof⟩
        | false =>
          obtain ⟨taken, -, -, hstands, -⟩ := h.token hnext hreply heof
          obtain ⟨ss, hss⟩ := ih _ (Lexer.length_rest_next_lt hnext hreply heof) hstands rfl
          exact ⟨Step.ofToken l u t :: ss, by rw [steps_of_token hnext hreply heof, hss]; rfl⟩
      | error e =>
        obtain ⟨hrest, -⟩ := Lexer.next_error hnext hreply
        obtain ⟨c, m, hskip⟩ := h.exists_skip hsize hrest
        obtain ⟨-, hstands, -⟩ := h.skip hskip
        obtain ⟨ss, hss⟩ := ih _ (Lexer.length_rest_skip_lt hskip hrest) hstands rfl
        exact ⟨Step.ofError u e (some c) :: ss, by rw [steps_of_error hnext hreply hskip, hss]; rfl⟩
  obtain ⟨ss, hss⟩ := hexists
  exact ⟨ss, hss, (reads_of_steps hss).accounts h⟩

end Recovery

/-- A recovery gives the tokens of its steps and emits their diagnostics. -/
theorem recover_of_steps {source : Text} {ss : List Recovery.Step}
    (h : Recovery.steps (.ofSource source) = .ok ss) (handler : Handler) :
    recover source handler =
      .ok (Recovery.tokens ss, handler.emitAll (Recovery.diagnostics ss)) := by
  rw [recover, h]
  rfl

open Diagnostic

/-- What the tokens and the new diagnostics of a recovery have to do with the source. -/
structure Recovered (source : Text) (tokens : List Token) (new : List Diagnostic) : Prop where
  /-- The ranges of the tokens and those of the characters at which errors are reported are
  disjoint and in order make up the source. -/
  tiles : ∃ tiles : List (Nat × Nat), tiles.Perm (tokens.map Token.range ++
      (errors new).map (source.charRange ·.span.start)) ∧
    tiles.Pairwise (fun r s => r.2 ≤ s.1) ∧ Tiles 0 tiles (Text.byteSize source)
  /-- There is a character where an error is reported. -/
  char : ∀ d ∈ errors new, (source.charAt? d.span.start).isSome = true
  /-- As many characters are in no token as errors are reported. -/
  length : source.length = (reconstruct tokens source).length + (errors new).length
  /-- The closing brackets that come when no bracket is open are warned of, and nothing else. -/
  warnings : (warnings new).map (fun d => (d.code, d.span)) =
    (Token.strayClosers 0 tokens).map fun t => (some .unbalancedCloser, t.span)
  /-- The diagnostics come in the order of their places, no two at the same. -/
  sorted : new.Pairwise fun d e => d.span.start < e.span.start

/-- **Recovery loses what it reports**: a source of less than `2 ^ 29` bytes is read to its end, and
the diagnostics of the handler stay in front of the new ones. -/
theorem exists_recover (source : Text) (handler : Handler)
    (hsize : Text.byteSize source < 2 ^ 29) :
    ∃ tokens handler' new, recover source handler = .ok (tokens, handler') ∧
      handler'.diagnostics = handler.diagnostics ++ new ∧ Recovered source tokens new := by
  obtain ⟨ss, hsteps, haccounts⟩ :=
    Recovery.exists_steps (Lexer.stands_ofSource source .unknown) hsize
  obtain ⟨tiles, htiles, hperm⟩ := haccounts.exists_tiles
  refine ⟨_, _, Recovery.diagnostics ss, recover_of_steps hsteps handler,
    handler.diagnostics_emitAll _, ⟨⟨tiles, hperm, htiles.pairwise, htiles⟩,
    haccounts.isSome_charAt?, ?_, ?_, haccounts.pairwise_start⟩⟩
  · simpa using haccounts.length_eq
  · rw [haccounts.warnings_eq, List.map_map]
    rfl

/-- A stray bracket, a character that no rule takes, and an open string, whose quote is skipped and
whose body is then read as a name. -/
theorem exists_recover_open_string :
    Text.byteSize [')', 'é', '\'', 'x'] < 2 ^ 29 ∧
      ∃ tokens handler' new,
        recover [')', 'é', '\'', 'x'] ⟨[{ level := .error, message := "old" }]⟩ =
          .ok (tokens, handler') ∧
        handler'.diagnostics = [{ level := .error, message := "old" }] ++ new ∧
        Recovered [')', 'é', '\'', 'x'] tokens new := by
  have hsize : Text.byteSize [')', 'é', '\'', 'x'] < 2 ^ 29 := by decide
  exact ⟨hsize, exists_recover _ ⟨[{ level := .error, message := "old" }]⟩ hsize⟩

end Lexis
