import Lexis.Proofs.Standing

/-!
# Sessions

A session is a lexer under the calls of its user: for a token, for the next item of the iteration
and for passing over a character, in any order. Every lexer of a session stands somewhere in its
source, so each call has an answer, and an answer that is no token moves nothing.

* `Lexer.call`: one call, with what it gives back.
* `Lexer.Reachable`: the lexers of the sessions on a source.
* `Lexer.Stands.call`, `Lexer.Reachable.stands`: what one call and what a session preserve.
* `Lexer.Reachable.exists_call`: every call of a session on a short source has an answer.
* `Lexer.Atomic`: asked for a token, a lexer moves to the end of a token or not at all.
  `Lexer.next_atomic` says so of every lexer of a session.
-/

namespace Lexis

/-- A call that the user of a lexer can make. -/
inductive Call where
  /-- For the next token. -/
  | next
  /-- For the next item of the iteration. -/
  | iterate
  /-- For passing over one character. -/
  | skip
  deriving DecidableEq, Repr

/-- What a call gives back. -/
inductive Call.Result where
  | reply (reply : Except LexError Token)
  | item (item? : Option (Except LexError Token))
  | skipped (char? : Option Char)

namespace Lexer

/-- A call: what it gives back and the lexer afterwards. -/
def call (l : Lexer) : Call → Checked (Call.Result × Lexer)
  | .next => l.next.map fun u => (.reply u.reply, u.lexer)
  | .iterate => l.iterate.map fun (item?, m) => (.item item?, m)
  | .skip => l.skip.map fun (char?, m) => (.skipped char?, m)

/-- The lexers to which calls lead from the start of a source. -/
inductive Reachable (source : Text) (file : FileId) : Lexer → Prop
  | start : Reachable source file (ofSource source file)
  | call {l m : Lexer} {c : Call} {r : Call.Result} :
      Reachable source file l → l.call c = .ok (r, m) → Reachable source file m

/-! ## What a session preserves -/

namespace Stands

variable {source before : Text} {l m : Lexer} {u : Turn}

theorem next (h : l.Stands source before) (hnext : l.next = .ok u) :
    ∃ after, u.lexer.Stands source after := by
  cases hreply : u.reply with
  | error e =>
    rw [(next_error hnext hreply).2]
    exact ⟨before, h⟩
  | ok t =>
    cases heof : t.isEof with
    | true =>
      rw [(eq_finish_of_isEof hnext hreply heof).2]
      exact ⟨before, h.congr rfl rfl rfl⟩
    | false =>
      obtain ⟨taken, -, -, hstands, -⟩ := h.token hnext hreply heof
      exact ⟨_, hstands⟩

theorem iterate (h : l.Stands source before) {item? : Option (Except LexError Token)}
    (hiterate : l.iterate = .ok (item?, m)) : ∃ after, m.Stands source after := by
  unfold Lexer.iterate at hiterate
  split at hiterate
  · obtain ⟨-, rfl⟩ := Prod.mk.inj (Except.ok.inj hiterate)
    exact ⟨before, h⟩
  · obtain ⟨u, hnext, heq⟩ := Checked.map_eq_ok_iff.mp hiterate
    obtain ⟨-, rfl⟩ := Prod.mk.inj heq
    obtain ⟨after, hafter⟩ := h.next hnext
    exact ⟨after, hafter.congr rfl rfl rfl⟩

/-- **A call leaves the lexer standing in its source.** -/
theorem call (h : l.Stands source before) {c : Call} {r : Call.Result}
    (hcall : l.call c = .ok (r, m)) : ∃ after, m.Stands source after := by
  cases c with
  | next =>
    obtain ⟨u, hnext, heq⟩ := Checked.map_eq_ok_iff.mp hcall
    obtain ⟨-, rfl⟩ := Prod.mk.inj heq
    exact h.next hnext
  | iterate =>
    obtain ⟨⟨item?, k⟩, hiterate, heq⟩ := Checked.map_eq_ok_iff.mp hcall
    obtain ⟨-, rfl⟩ := Prod.mk.inj heq
    exact h.iterate hiterate
  | skip =>
    obtain ⟨⟨char?, k⟩, hskip, heq⟩ := Checked.map_eq_ok_iff.mp hcall
    obtain ⟨-, rfl⟩ := Prod.mk.inj heq
    cases char? with
    | some c => exact ⟨_, (h.skip hskip).2.1⟩
    | none =>
      obtain ⟨-, -, rfl⟩ | ⟨c, mark, -, -, hsome, -⟩ := skip_eq_ok hskip
      · exact ⟨before, h⟩
      · contradiction

end Stands

/-- **Every lexer of a session stands in its source.** -/
theorem Reachable.stands {source : Text} {file : FileId} {l : Lexer}
    (h : Reachable source file l) : ∃ before, l.Stands source before := by
  induction h with
  | start => exact ⟨[], stands_ofSource source file⟩
  | call _ hcall ih =>
    obtain ⟨before, hbefore⟩ := ih
    exact hbefore.call hcall

/-- **A session does not get stuck**: on a source of less than `2 ^ 29` bytes every call has an
answer. -/
theorem Reachable.exists_call {source : Text} {file : FileId} {l : Lexer}
    (h : Reachable source file l) (hsize : Text.byteSize source < 2 ^ 29) (c : Call) :
    ∃ r m, l.call c = .ok (r, m) := by
  obtain ⟨before, hstands⟩ := h.stands
  cases c with
  | next =>
    obtain ⟨u, hnext⟩ := hstands.exists_next hsize
    exact ⟨_, _, by rw [Lexer.call, hnext]; rfl⟩
  | iterate =>
    by_cases hfused : l.fused = true
    · exact ⟨_, _, by rw [Lexer.call, Lexer.iterate, if_pos hfused]; rfl⟩
    · obtain ⟨u, hnext⟩ := hstands.exists_next hsize
      exact ⟨_, _, by rw [Lexer.call, Lexer.iterate, if_neg hfused, hnext]; rfl⟩
  | skip =>
    by_cases hrest : l.rest = []
    · exact ⟨_, _, by rw [Lexer.call, Lexer.skip, hrest]; rfl⟩
    · obtain ⟨c, m, hskip⟩ := hstands.exists_skip hsize hrest
      exact ⟨_, _, by rw [Lexer.call, hskip]; rfl⟩

/-! ## Tokens are taken whole or not at all -/

/-- What may come of asking the lexer `l` on `source` for a token. -/
structure Atomic (source : Text) (l : Lexer) (u : Turn) : Prop where
  /-- The end of the input is answered exactly at the end of the source. -/
  eof_iff : (∃ t, u.reply = .ok t ∧ t.isEof = true) ↔ l.mark.offset = Text.byteSize source
  /-- Any other token moves the lexer forward, to the end of the token. -/
  token : ∀ t, u.reply = .ok t → t.isEof = false →
    l.mark.offset < u.lexer.mark.offset ∧ u.lexer.mark.offset = t.span.stop
  /-- At the end of the input and after an error the place is as before, -/
  mark_eq : stops u.reply = true → u.lexer.mark = l.mark
  /-- and so is all that is carried over from token to token. -/
  context_eq : stops u.reply = true → u.lexer.context = l.context
  /-- Then the same question has the same answer. -/
  again : stops u.reply = true → ∃ v, u.lexer.next = .ok v ∧ v.reply = u.reply
  /-- An error starts where the lexer is, -/
  error_start : ∀ e, u.reply = .error e →
    e.span.start = l.mark.offset ∧ e.span.line = l.mark.line ∧ e.span.column = l.mark.column
  /-- and ends at a later edge of a character of the source. -/
  error_stop : ∀ e, u.reply = .error e →
    e.span.start < e.span.stop ∧ e.span.stop ≤ Text.byteSize source ∧
      Text.IsEdge source e.span.start ∧ Text.IsEdge source e.span.stop

/-- An answer that ends an iteration changes neither place nor context, and is repeated. -/
theorem next_of_stops {l : Lexer} {u : Turn} (hnext : l.next = .ok u)
    (hstops : stops u.reply = true) :
    u.lexer.mark = l.mark ∧ u.lexer.context = l.context ∧
      ∃ v, u.lexer.next = .ok v ∧ v.reply = u.reply := by
  cases hreply : u.reply with
  | error e =>
    have hsame := (next_error hnext hreply).2
    refine ⟨by rw [hsame], by rw [hsame], u, ?_, hreply⟩
    rw [hsame, hnext]
  | ok t =>
    obtain ⟨hrest, rfl⟩ := eq_finish_of_isEof hnext hreply (by simpa [stops, hreply] using hstops)
    refine ⟨rfl, rfl, l.finish.lexer.finish, ?_, ?_⟩
    · rw [Lexer.next, show l.finish.lexer.rest = [] from hrest]
    · exact hreply

namespace Stands

variable {source before : Text} {l : Lexer} {u : Turn}

theorem isEof_iff (h : l.Stands source before) (hnext : l.next = .ok u) :
    (∃ t, u.reply = .ok t ∧ t.isEof = true) ↔ l.mark.offset = Text.byteSize source := by
  rw [h.offset_eq_byteSize_iff]
  constructor
  · rintro ⟨t, ht, heof⟩
    exact (eq_finish_of_isEof hnext ht heof).1
  · intro hrest
    cases answers_of_next hnext with
    | eof => exact ⟨_, rfl, rfl⟩
    | token hcons => simp [hrest] at hcons
    | error hcons => simp [hrest] at hcons

theorem offset_of_token (h : l.Stands source before) {t : Token} (hnext : l.next = .ok u)
    (ht : u.reply = .ok t) (heof : t.isEof = false) :
    l.mark.offset < u.lexer.mark.offset ∧ u.lexer.mark.offset = t.span.stop := by
  obtain ⟨taken, hne, hspans, hstands, -⟩ := h.token hnext ht heof
  rw [h.offset_eq, hstands.offset_eq, hspans.stop_eq]
  exact ⟨Text.byteSize_lt_append before hne, rfl⟩

theorem edges_of_error (h : l.Stands source before) {e : LexError} (hnext : l.next = .ok u)
    (he : u.reply = .error e) :
    e.span.start < e.span.stop ∧ e.span.stop ≤ Text.byteSize source ∧
      Text.IsEdge source e.span.start ∧ Text.IsEdge source e.span.stop := by
  obtain ⟨taken, left, hne, hsource, hspan⟩ := h.error hnext he
  have hstop : e.span.stop = Text.byteSize (before ++ taken) := by rw [hspan]; rfl
  rw [h.start_of_error hnext he, hstop, ← hsource]
  refine ⟨Text.byteSize_lt_append before hne, Text.byteSize_le_append _ left, ?_,
    Text.isEdge_append _ left⟩
  rw [List.append_assoc]
  exact Text.isEdge_append _ _

end Stands

/-- **Asked for a token, a lexer of a session always answers, and it moves to the end of a token or
not at all.** -/
theorem next_atomic {source : Text} {file : FileId} {l : Lexer}
    (hsize : Text.byteSize source < 2 ^ 29) (h : Reachable source file l) :
    ∃ u, l.next = .ok u ∧ Atomic source l u := by
  obtain ⟨before, hstands⟩ := h.stands
  obtain ⟨u, hnext⟩ := hstands.exists_next hsize
  refine ⟨u, hnext, ?_⟩
  exact {
    eof_iff := hstands.isEof_iff hnext
    token := fun t ht heof => hstands.offset_of_token hnext ht heof
    mark_eq := fun hstops => (next_of_stops hnext hstops).1
    context_eq := fun hstops => (next_of_stops hnext hstops).2.1
    again := fun hstops => (next_of_stops hnext hstops).2.2
    error_start := fun e he => by
      obtain ⟨taken, left, -, -, hspan⟩ := hstands.error hnext he
      rw [hspan]
      exact ⟨rfl, rfl, rfl⟩
    error_stop := fun e he => hstands.edges_of_error hnext he }

/-- An open string behind a bracket: the error leaves the lexer behind the bracket, which stays
counted. -/
theorem next_atomic_open_string :
    Text.byteSize ['(', '"', 'é'] < 2 ^ 29 ∧
      ∃ l u, Reachable ['(', '"', 'é'] ⟨3⟩ l ∧ l.rest = ['"', 'é'] ∧ l.context.depth = 1 ∧
        l.next = .ok u ∧ Atomic ['(', '"', 'é'] l u := by
  have hsize : Text.byteSize ['(', '"', 'é'] < 2 ^ 29 := by decide
  have hcall : (ofSource ['(', '"', 'é'] ⟨3⟩).call .next =
      .ok (_, ⟨⟨3⟩, ['"', 'é'], ⟨1, 1, 1⟩, ⟨1, false, false, 0⟩, 1, false, false⟩) := rfl
  have hreachable := Reachable.start.call hcall
  obtain ⟨u, hnext, hatomic⟩ := next_atomic hsize hreachable
  exact ⟨hsize, _, u, hreachable, rfl, rfl, hnext, hatomic⟩

end Lexer

end Lexis
