import Lexis.Lexer.Basic
import Lexis.Proofs.Lexeme

/-!
# What a lexer can answer

The inversions of the three operations on a lexer, each stated once with all that can come of the
operation.

* `Context.after_eq_ok`: what a token makes of the context.
* `Lexer.Answers`: the answers of a lexer that is asked for a token, each with what becomes of the
  lexer. `Lexer.answers_of_next` is the inversion of `Lexer.next`.
* `Lexer.exists_token_of_scan`, `Lexer.exists_error_of_scan`: the answer to what a rule comes to.
* `Lexer.skip_eq_ok`: the inversion of `Lexer.skip`.
-/

namespace Lexis

/-! ## Counting brackets -/

/-- The number of open brackets behind a token: a closing bracket without an open one changes
nothing. -/
def Kind.depthAfter (kind : Kind) (depth : Nat) : Nat :=
  if kind.opens then depth + 1 else if kind.closes then depth - 1 else depth

theorem Kind.closes_eq_false_of_opens {kind : Kind} (h : kind.opens = true) :
    kind.closes = false := by
  cases kind with
  | symbol s => cases s <;> first | rfl | contradiction
  | _ => rfl

namespace Context

/-- The context after a token: only brackets are counted, and only a continuation is remembered. -/
theorem after_eq_ok {x y : Context} {kind : Kind} (h : x.after kind = .ok y) :
    y = { depth := kind.depthAfter x.depth
          atStart := false
          afterContinuation := kind = .layout .continuation
          unmatchedClosers :=
            x.unmatchedClosers + if kind.closes = true ∧ x.depth = 0 then 1 else 0 } := by
  unfold after countBracket Checked.word at h
  unfold Kind.depthAfter
  split at h
  · rename_i hopens
    rw [Kind.closes_eq_false_of_opens hopens]
    split at h
    · obtain rfl := Except.ok.inj h
      simp [hopens]
    · contradiction
  · rename_i hopens
    split at h
    · rename_i hcloses
      split at h
      · rename_i hdepth
        split at h
        · obtain rfl := Except.ok.inj h
          simp [hopens, hcloses, hdepth]
        · contradiction
      · rename_i hdepth
        obtain rfl := Except.ok.inj h
        simp [hopens, hcloses, hdepth]
    · rename_i hcloses
      obtain rfl := Except.ok.inj h
      simp [hopens, hcloses]

theorem exists_after {x : Context} (kind : Kind)
    (h : x.depth + x.unmatchedClosers + 1 < Checked.wordSize) : ∃ y, x.after kind = .ok y := by
  unfold after countBracket
  split
  · exact ⟨_, by rw [Checked.word_of_lt (by omega)]; rfl⟩
  · split
    · split
      · exact ⟨_, by rw [Checked.word_of_lt (by omega)]; rfl⟩
      · exact ⟨_, rfl⟩
    · exact ⟨_, rfl⟩

/-- A token adds at most one to the brackets counted. -/
theorem depth_add_unmatchedClosers_of_after_le {x y : Context} {kind : Kind}
    (h : x.after kind = .ok y) :
    y.depth + y.unmatchedClosers ≤ x.depth + x.unmatchedClosers + 1 := by
  rw [after_eq_ok h]
  unfold Kind.depthAfter
  by_cases hopens : kind.opens = true
  · simp only [hopens, Kind.closes_eq_false_of_opens hopens, Bool.false_eq_true, false_and, if_true,
      if_false]
    omega
  · simp only [hopens, Bool.false_eq_true, if_false]
    split <;> split <;> omega

end Context

namespace Lexer

/-! ## What a lexer can answer -/

/-- The token of a lexeme that ends at the mark `stop`. -/
def tokenTo (l : Lexer) (lexeme : Lexeme) (stop : Mark) : Token :=
  ⟨lexeme.kind, lexeme.text, l.spanTo stop.offset, lexeme.visible⟩

/-- The answers of a lexer: the end of the input, a token or an error. -/
inductive Answers (l : Lexer) : Turn → Prop
  /-- Nothing is left. -/
  | eof (hrest : l.rest = []) : Answers l l.finish
  /-- A rule gives a lexeme, and the lexer goes on behind what was read. -/
  | token {c : Char} {t : Text} {lexeme : Lexeme} {stop : Mark} {context : Context}
      (hrest : l.rest = c :: t)
      (hstop : l.mark.advance (scan l.surroundings c t).reading.taken = .ok stop)
      (hlexeme : (scan l.surroundings c t).result = .ok lexeme)
      (hcontext : l.context.after lexeme.kind = .ok context) :
      Answers l {
        reply := .ok (l.tokenTo lexeme stop)
        lexer := { l with
          rest := (scan l.surroundings c t).reading.left
          mark := stop
          context
          produced := l.produced + 1 }
        events := l.tokenEvents (l.tokenTo lexeme stop) }
  /-- A rule fails, and the lexer stays. -/
  | error {c : Char} {t : Text} {cause : Cause} {stop : Mark}
      (hrest : l.rest = c :: t)
      (hstop : l.mark.advance (scan l.surroundings c t).reading.taken = .ok stop)
      (hcause : (scan l.surroundings c t).result = .error cause) :
      Answers l (l.refuse cause stop)

theorem answers_of_next {l : Lexer} {u : Turn} (h : l.next = .ok u) : l.Answers u := by
  unfold next at h
  split at h
  · rename_i hrest
    obtain rfl := Except.ok.inj h
    exact .eof hrest
  · rename_i c t hrest
    obtain ⟨stop, hstop, -, hresult⟩ := turn_eq_ok h
    split at hresult
    · rename_i lexeme hlexeme
      unfold produce at hresult
      cases hcontext : l.context.after lexeme.kind with
      | error f => simp [hcontext, bind, Except.bind] at hresult
      | ok context =>
        simp only [hcontext, bind, Except.bind] at hresult
        obtain rfl := Except.ok.inj hresult
        exact .token hrest hstop hlexeme hcontext
    · rename_i cause hcause
      rw [hresult]
      exact .error hrest hstop hcause

theorem isEof_tokenTo {l : Lexer} {c : Char} {t : Text} {lexeme : Lexeme}
    (h : (scan l.surroundings c t).result = .ok lexeme) (stop : Mark) :
    (l.tokenTo lexeme stop).isEof = false :=
  decide_eq_false ((faithful_scan l.surroundings c t).kind_ne lexeme h)

/-- The end of the input is answered only where nothing is left. -/
theorem eq_finish_of_isEof {l : Lexer} {u : Turn} {t : Token} (h : l.next = .ok u)
    (ht : u.reply = .ok t) (heof : t.isEof = true) : l.rest = [] ∧ u = l.finish := by
  cases answers_of_next h with
  | eof hrest => exact ⟨hrest, rfl⟩
  | token hrest hstop hlexeme hcontext =>
    obtain rfl := Except.ok.inj ht
    rw [isEof_tokenTo hlexeme] at heof
    contradiction
  | error hrest hstop hcause => contradiction

/-- The lexeme of a rule becomes the token, and the lexer goes on behind what was read. -/
theorem exists_token_of_scan {l : Lexer} {u : Turn} {c : Char} {t : Text} {lexeme : Lexeme}
    (hrest : l.rest = c :: t) (hnext : l.next = .ok u)
    (hlexeme : (scan l.surroundings c t).result = .ok lexeme) :
    ∃ token, u.reply = .ok token ∧ token.kind = lexeme.kind ∧ token.visible = lexeme.visible ∧
      token.text = lexeme.text ∧ u.lexer.rest = (scan l.surroundings c t).reading.left := by
  cases answers_of_next hnext with
  | eof hnil =>
    rw [hrest] at hnil
    contradiction
  | token hrest' hstop hlexeme' hcontext =>
    obtain ⟨rfl, rfl⟩ := List.cons.inj (hrest.symm.trans hrest')
    obtain rfl := Except.ok.inj (hlexeme.symm.trans hlexeme')
    exact ⟨_, rfl, rfl, rfl, rfl, rfl⟩
  | error hrest' hstop hcause =>
    obtain ⟨rfl, rfl⟩ := List.cons.inj (hrest.symm.trans hrest')
    rw [hlexeme] at hcause
    contradiction

/-- The failure of a rule becomes the error, with what was read as its span. -/
theorem exists_error_of_scan {l : Lexer} {u : Turn} {c : Char} {t : Text} {cause : Cause}
    (hrest : l.rest = c :: t) (hnext : l.next = .ok u)
    (hcause : (scan l.surroundings c t).result = .error cause) :
    ∃ e stop, u.reply = .error e ∧ e.cause = cause ∧
      l.mark.advance (scan l.surroundings c t).reading.taken = .ok stop ∧
      e.span = l.spanTo stop.offset := by
  cases answers_of_next hnext with
  | eof hnil =>
    rw [hrest] at hnil
    contradiction
  | token hrest' hstop hlexeme hcontext =>
    obtain ⟨rfl, rfl⟩ := List.cons.inj (hrest.symm.trans hrest')
    rw [hcause] at hlexeme
    contradiction
  | error hrest' hstop hcause' =>
    obtain ⟨rfl, rfl⟩ := List.cons.inj (hrest.symm.trans hrest')
    obtain rfl := Except.error.inj (hcause.symm.trans hcause')
    exact ⟨_, _, rfl, rfl, hstop, rfl⟩

/-- Passing over a character: nothing happens at the end of the input. -/
theorem skip_eq_ok {l m : Lexer} {skipped : Option Char} (h : l.skip = .ok (skipped, m)) :
    (l.rest = [] ∧ skipped = none ∧ m = l) ∨
      ∃ c mark, l.rest = c :: m.rest ∧ l.mark.step c = .ok mark ∧ skipped = some c ∧
        m = { l with
          rest := m.rest
          mark
          context := { l.context with atStart := false, afterContinuation := false } } := by
  unfold skip at h
  split at h
  · rename_i hrest
    obtain ⟨rfl, rfl⟩ := Prod.mk.inj (Except.ok.inj h)
    exact .inl ⟨hrest, rfl, rfl⟩
  · rename_i c t hrest
    obtain ⟨mark, hstep, heq⟩ := Checked.map_eq_ok_iff.mp h
    obtain ⟨rfl, rfl⟩ := Prod.mk.inj heq
    exact .inr ⟨c, mark, hrest, hstep, rfl, rfl⟩

end Lexer

end Lexis
