import Lexis.Proofs.Run
import Lexis.Proofs.Session

/-!
# What comes of a call

The calls of a session come down to two operations: a token is asked for, by itself or as an item of
the iteration, or a character is passed over. This module states once what a call can give back and
what it leaves, so that facts about sessions need no look at the single calls.

* `Call.Result.item?`, `Call.Result.token?`, `Call.Result.span?`: what is in the result of a call.
* `Lexer.Serves`: what can come of a call. `Lexer.serves_of_call` is the inversion of `Lexer.call`.
* `Lexer.Run.reachable`: a run is a session of requests for tokens.
* `Lexer.Moves`: what a call does to the place and the context. `Lexer.Stands.moves_of_call` says
  that it does no more.
* `Lexer.Reachable.atStart_iff`, `Lexer.Reachable.atLineStart_iff`: a session is at the start of its
  source, or of a line, exactly where the mark says so.
-/

namespace Lexis

/-! ## Results -/

/-- The span of a reply. -/
def Lexer.replySpan : Except LexError Token → Span
  | .ok t => t.span
  | .error e => e.span

namespace Call.Result

/-- The item of the iteration that a result stands for, nothing at the end of the input. -/
def item? : Call.Result → Option (Except LexError Token)
  | .reply answer => Lexer.item? answer
  | .item found => found
  | .skipped _ => none

/-- The token that a call produced, the end of the input apart. -/
def token? (r : Call.Result) : Option Token := r.item?.bind Except.toOption

/-- The span that a call gives back, with a token or an error. -/
def span? : Call.Result → Option Span
  | .reply answer => some (Lexer.replySpan answer)
  | .item found => found.map Lexer.replySpan
  | .skipped _ => none

end Call.Result

namespace Lexer

/-- An item of the iteration is the reply that it stands for. -/
theorem eq_of_item?_eq_some {reply answer : Except LexError Token} (h : item? reply = some answer) :
    reply = answer := by
  cases reply with
  | error e => exact Option.some.inj h
  | ok t =>
    rw [item?] at h
    split at h
    · contradiction
    · exact Option.some.inj h

/-- A reply that ends an iteration stands for no token. -/
theorem toOption_item?_of_stops {reply : Except LexError Token} (h : stops reply = true) :
    (item? reply).bind Except.toOption = none := by
  cases reply with
  | error e => rfl
  | ok t =>
    rw [item?, if_pos (show t.isEof = true from h)]
    rfl

/-! ## The inversion of a call -/

/-- What can come of a call: the result and the lexer afterwards. -/
inductive Serves (l : Lexer) : Call.Result → Lexer → Prop
  /-- The iteration has ended. -/
  | ended : Serves l (.item none) l
  /-- The lexer is asked for a token. -/
  | asked {r : Call.Result} {m : Lexer} {u : Turn} (hnext : l.next = .ok u)
      (hitem : r.item? = item? u.reply)
      (hspan : ∀ span, r.span? = some span → span = replySpan u.reply)
      (hm : m = { u.lexer with fused := m.fused }) : Serves l r m
  /-- A character is passed over, if there is one. -/
  | skipped {m : Lexer} {char? : Option Char} (hskip : l.skip = .ok (char?, m)) :
      Serves l (.skipped char?) m

theorem serves_of_call {l m : Lexer} {c : Call} {r : Call.Result} (h : l.call c = .ok (r, m)) :
    l.Serves r m := by
  cases c with
  | next =>
    obtain ⟨u, hnext, heq⟩ := Checked.map_eq_ok_iff.mp h
    obtain ⟨rfl, rfl⟩ := Prod.mk.inj heq
    exact .asked hnext rfl (fun _ hspan => (Option.some.inj hspan).symm) rfl
  | iterate =>
    obtain ⟨⟨found, k⟩, hiterate, heq⟩ := Checked.map_eq_ok_iff.mp h
    obtain ⟨rfl, rfl⟩ := Prod.mk.inj heq
    unfold iterate at hiterate
    split at hiterate
    · obtain ⟨rfl, rfl⟩ := Prod.mk.inj (Except.ok.inj hiterate)
      exact .ended
    · obtain ⟨u, hnext, heq⟩ := Checked.map_eq_ok_iff.mp hiterate
      obtain ⟨rfl, rfl⟩ := Prod.mk.inj heq
      refine .asked hnext rfl (fun span hspan => ?_) rfl
      obtain ⟨answer, hanswer, rfl⟩ := Option.map_eq_some_iff.mp hspan
      rw [eq_of_item?_eq_some hanswer]
  | skip =>
    obtain ⟨⟨char?, k⟩, hskip, heq⟩ := Checked.map_eq_ok_iff.mp h
    obtain ⟨rfl, rfl⟩ := Prod.mk.inj heq
    exact .skipped hskip

/-- What a lexer is asked for starts at its mark. -/
theorem replySpan_of_next {l : Lexer} {u : Turn} (h : l.next = .ok u) :
    ∃ stop, replySpan u.reply = l.spanTo stop := by
  cases answers_of_next h with
  | eof hrest => exact ⟨_, rfl⟩
  | token hrest hstop hlexeme hcontext => exact ⟨_, rfl⟩
  | error hrest hstop hcause => exact ⟨_, rfl⟩

/-- The span that a call gives back starts at the mark of the lexer. -/
theorem span?_of_call {l m : Lexer} {c : Call} {r : Call.Result} (h : l.call c = .ok (r, m))
    {span : Span} (hspan : r.span? = some span) : ∃ stop, span = l.spanTo stop := by
  cases serves_of_call h with
  | ended => contradiction
  | asked hnext hitem hreply hm =>
    rw [hreply span hspan]
    exact replySpan_of_next hnext
  | skipped hskip => contradiction

/-! ## Runs are sessions -/

theorem Run.reachable {source : Text} {file : FileId} {l m : Lexer} {ts : List Token}
    (hrun : Run l ts m) (h : Reachable source file l) : Reachable source file m := by
  induction hrun with
  | nil l => exact h
  | @cons l m u t ts hnext ht heof hrun ih =>
    have hcall : l.call .next = .ok (.reply u.reply, u.lexer) := by
      rw [Lexer.call, hnext]
      rfl
    exact ih (h.call hcall)

/-- A token takes the context to the one after its kind. -/
theorem context_of_token {l : Lexer} {u : Turn} {t : Token} (hnext : l.next = .ok u)
    (ht : u.reply = .ok t) (heof : t.isEof = false) :
    l.context.after t.kind = .ok u.lexer.context := by
  cases answers_of_next hnext with
  | eof hrest =>
    obtain rfl := Except.ok.inj ht
    contradiction
  | token hrest hstop hlexeme hcontext =>
    obtain rfl := Except.ok.inj ht
    exact hcontext
  | error hrest hstop hcause => contradiction

/-! ## Place and context -/

/-- What a call does to the place and the context of a lexer. -/
inductive Moves (l : Lexer) : Call.Result → Lexer → Prop
  /-- Nothing is consumed and nothing changes. -/
  | stays {r : Call.Result} {m : Lexer} (htoken : r.token? = none) (hmark : m.mark = l.mark)
      (hcontext : m.context = l.context) : Moves l r m
  /-- A token is produced. -/
  | token {r : Call.Result} {m : Lexer} {t : Token} (htoken : r.token? = some t)
      (hlt : l.mark.offset < m.mark.offset) (hcontext : l.context.after t.kind = .ok m.context) :
      Moves l r m
  /-- A character is passed over. -/
  | skips {r : Call.Result} {m : Lexer} (htoken : r.token? = none)
      (hlt : l.mark.offset < m.mark.offset)
      (hcontext : m.context = { l.context with atStart := false, afterContinuation := false }) :
      Moves l r m

theorem Stands.moves_of_call {source before : Text} {l m : Lexer} (h : l.Stands source before)
    {c : Call} {r : Call.Result} (hcall : l.call c = .ok (r, m)) : l.Moves r m := by
  cases serves_of_call hcall with
  | ended => exact .stays rfl rfl rfl
  | @asked r m u hnext hitem hspan hm =>
    have hmark : m.mark = u.lexer.mark := by rw [hm]
    have hcontext : m.context = u.lexer.context := by rw [hm]
    cases hstops : stops u.reply with
    | true =>
      obtain ⟨hmark', hcontext', -⟩ := next_of_stops hnext hstops
      refine .stays ?_ (hmark.trans hmark') (hcontext.trans hcontext')
      rw [Call.Result.token?, hitem, toOption_item?_of_stops hstops]
    | false =>
      obtain ⟨t, ht, heof⟩ := exists_token_of_not_stops hstops
      refine .token (t := t) ?_ ?_ ?_
      · rw [Call.Result.token?, hitem, ht, item?, if_neg (by simp [heof])]
        rfl
      · rw [hmark]
        exact (h.offset_of_token hnext ht heof).1
      · rw [hcontext]
        exact context_of_token hnext ht heof
  | @skipped m char? hskip =>
    cases char? with
    | none =>
      obtain ⟨-, -, rfl⟩ | ⟨c, mark, -, -, hsome, -⟩ := skip_eq_ok hskip
      · exact .stays rfl rfl rfl
      · contradiction
    | some c =>
      obtain ⟨-, hstands, hcontext⟩ := h.skip hskip
      refine .skips rfl ?_ hcontext
      rw [h.offset_eq, hstands.offset_eq]
      exact Text.byteSize_lt_append before (List.cons_ne_nil c [])

/-! ## The start of a source and of a line -/

namespace Reachable

variable {source : Text} {file : FileId} {l : Lexer}

/-- **Nothing has been consumed exactly at the start of the source.** -/
theorem atStart_iff (h : Reachable source file l) :
    l.context.atStart = true ↔ l.mark.offset = 0 := by
  induction h with
  | start => simp [ofSource, Mark.origin]
  | call hreachable hcall ih =>
    obtain ⟨before, hstands⟩ := hreachable.stands
    cases hstands.moves_of_call hcall with
    | stays htoken hmark hcontext => rwa [hmark, hcontext]
    | token htoken hlt hcontext =>
      rw [Context.after_eq_ok hcontext]
      simp only [Bool.false_eq_true, false_iff]
      omega
    | skips htoken hlt hcontext =>
      rw [hcontext]
      simp only [Bool.false_eq_true, false_iff]
      omega

/-- **A line starts exactly at column zero**: the start of the source is no case of its own. -/
theorem atLineStart_iff (h : Reachable source file l) :
    l.atLineStart = true ↔ l.mark.column = 0 := by
  obtain ⟨before, hstands⟩ := h.stands
  have hcolumn : l.context.atStart = true → l.mark.column = 0 := by
    intro hstart
    have hzero := h.atStart_iff.mp hstart
    rw [hstands.offset_eq] at hzero
    -- nothing in front of the lexer means that its mark is the origin
    obtain rfl : before = [] := by
      refine Decidable.byContradiction fun hne => ?_
      have := Text.byteSize_pos hne
      omega
    rw [← Except.ok.inj hstands.advance_eq]
    rfl
  simp only [atLineStart, Bool.or_eq_true, decide_eq_true_eq]
  exact ⟨fun hor => hor.elim hcolumn id, .inr⟩

end Reachable

end Lexer

end Lexis
