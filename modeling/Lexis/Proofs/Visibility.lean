import Lexis.Proofs.Brackets
import Lexis.Proofs.Calls

/-!
# Which tokens are visible

Space, comments and continuations are never visible, newlines only where they end a logical line,
and everything else always. Whether a newline ends a logical line can be read off the tokens in
front of it: the brackets that they leave open, the column at which it starts, and whether the last
of them is a continuation.

* `Kind.visibleIf`, `Scan.Shows`: the visibility of a kind, and an outcome that agrees with it.
  `shows_scan` says that the outcome of the chosen rule does; each rule has its own lemma.
* `Context.Follows`: what a context has kept of the tokens in front of it. `Lexer.Run.follows` says
  that the tokens of a run are kept.
* `exists_run_take_of_tokenize`: each token of a source comes from a lexer that has run through the
  tokens in front of it.
* `visible_eq_false_iff`: the hidden tokens of a source.
-/

namespace Lexis

/-- Whether a parser sees a token of the kind, where `endsLine` says whether a newline ends a
logical line. -/
def Kind.visibleIf (endsLine : Bool) : Kind → Bool
  | .layout .newline => endsLine
  | .layout _ => false
  | _ => true

/-- The kinds that a parser never sees. -/
def Kind.hidden : List Kind :=
  [.layout .blank, .layout .indentation, .layout .comment, .layout .continuation]

theorem Kind.visibleIf_eq_false_iff (endsLine : Bool) (kind : Kind) :
    kind.visibleIf endsLine = false ↔
      kind ∈ hidden ∨ kind = .layout .newline ∧ endsLine = false := by
  cases kind with
  | layout l => cases l <;> simp [visibleIf, hidden]
  | _ => simp [visibleIf, hidden]

/-! ## The visibility of lexemes -/

/-- A lexeme is visible as its kind says. -/
def Scan.Shows (endsLine : Bool) (s : Scan) : Prop :=
  ∀ lexeme, s.result = .ok lexeme → lexeme.visible = lexeme.kind.visibleIf endsLine

namespace Scan

variable {endsLine : Bool}

theorem shows_accept {kind : Kind} {visible : Bool} (r : Reading)
    (h : visible = kind.visibleIf endsLine) : (accept kind visible r).Shows endsLine := by
  rintro _ ⟨⟩
  exact h

theorem shows_reject (cause : Cause) (r : Reading) : (reject cause r).Shows endsLine := by
  rintro _ ⟨⟩

end Scan

namespace Rule

open Scan

variable {endsLine : Bool}

theorem shows_comment (lineStart : Bool) (t : Text) : (comment lineStart t).Shows endsLine := by
  unfold comment
  split <;> exact shows_accept _ rfl

theorem shows_lineSpace (inBrackets : Bool) (t : Text) :
    (lineSpace inBrackets t).Shows endsLine := by
  unfold lineSpace
  dsimp only
  split
  · rintro _ ⟨⟩
    rfl
  · split <;>
    · rintro _ ⟨⟩
      rfl

theorem shows_continuation (t : Text) : (continuation t).Shows endsLine := by
  unfold continuation
  dsimp only
  split
  · exact shows_reject _ _
  · exact shows_reject _ _
  · exact shows_accept _ rfl

theorem shows_stringLiteral (n : Nat) (t : Text) : (stringLiteral n t).Shows endsLine := by
  have hclose : ∀ form r e, (closeLiteral form r e).Shows endsLine := by
    intro form r e
    cases e with
    | closed => exact shows_accept _ rfl
    | escape => exact shows_reject _ _
    | unclosed => exact shows_reject _ _
  unfold stringLiteral
  dsimp only
  split <;> exact hclose _ _ _

theorem shows_word (t : Text) : (word t).Shows endsLine := by
  refine shows_accept _ ?_
  unfold wordKind
  split <;> rfl

theorem shows_integer (r : Reading) : (integer r).Shows endsLine := by
  unfold integer
  split
  · exact shows_accept _ rfl
  · split <;> exact shows_accept _ rfl

theorem shows_float (r : Reading) : (float r).Shows endsLine := by
  unfold float
  split
  · exact shows_reject _ _
  · split <;> exact shows_accept _ rfl

theorem shows_number (t : Text) : (number t).Shows endsLine := by
  unfold number hexInteger decimal
  dsimp only
  split
  · split
    · exact shows_integer _
    · exact shows_reject _ _
  · split
    · split
      · exact shows_float _
      · exact shows_reject _ _
    · split
      · exact shows_float _
      · exact shows_integer _

theorem shows_symbol (c : Char) (t : Text) : (symbol c (c :: t)).Shows endsLine := by
  rw [symbol_cons]
  split
  · exact shows_accept _ rfl
  · exact shows_reject _ _

end Rule

/-- **The lexeme of the chosen rule is visible as its kind says.** -/
theorem shows_scan (s : Surroundings) (c : Char) (t : Text) : (scan s c t).Shows s.endsLine := by
  unfold scan
  dsimp only
  split
  · exact Scan.shows_accept _ rfl
  split
  · exact Rule.shows_lineSpace _ _
  split
  · exact Scan.shows_accept _ rfl
  split
  · exact Rule.shows_comment _ _
  split
  · exact Rule.shows_continuation _
  split
  · exact Rule.shows_stringLiteral _ _
  split
  · exact Rule.shows_stringLiteral _ _
  split
  · exact Rule.shows_word _
  split
  · exact Rule.shows_number _
  · exact Rule.shows_symbol _ _

theorem Lexer.visible_of_next {l : Lexer} {u : Turn} {t : Token} (hnext : l.next = .ok u)
    (ht : u.reply = .ok t) : t.visible = t.kind.visibleIf l.surroundings.endsLine := by
  cases answers_of_next hnext with
  | eof hrest =>
    obtain rfl := Except.ok.inj ht
    rfl
  | @token c r lexeme stop context hrest hstop hlexeme hcontext =>
    obtain rfl := Except.ok.inj ht
    exact shows_scan l.surroundings c r lexeme hlexeme
  | error hrest hstop hcause => contradiction

/-! ## What is kept of the tokens in front -/

/-- The context has kept of the tokens their brackets and whether the last is a continuation. -/
structure Context.Follows (ts : List Token) (x : Context) : Prop where
  counts : x.Counts ts
  afterContinuation : x.afterContinuation = ts.getLast?.any (·.kind = .layout .continuation)

theorem Context.Follows.after {ts : List Token} {x y : Context} (h : x.Follows ts) {t : Token}
    (hafter : x.after t.kind = .ok y) : y.Follows (ts ++ [t]) := by
  refine ⟨h.counts.after hafter, ?_⟩
  rw [Context.after_eq_ok hafter]
  simp

theorem Context.follows_ofSource (source : Text) (file : FileId) :
    (Lexer.ofSource source file).context.Follows [] :=
  ⟨⟨rfl, rfl⟩, rfl⟩

namespace Lexer.Run

/-- **The tokens of a run are kept**, behind those in front of it. -/
theorem follows {l m : Lexer} {past ts : List Token} (hrun : Run l ts m)
    (h : l.context.Follows past) : m.context.Follows (past ++ ts) := by
  induction hrun generalizing past with
  | nil l => simpa using h
  | cons hnext ht heof hrun ih => simpa using ih (h.after (context_of_token hnext ht heof))

/-- Each token of a run comes from a lexer that has run through the tokens in front of it. -/
theorem exists_next_getElem {l m : Lexer} {ts : List Token} (hrun : Run l ts m) {i : Nat}
    (hi : i < ts.length) :
    ∃ k u, Run l (ts.take i) k ∧ k.next = .ok u ∧ u.reply = .ok ts[i] := by
  induction hrun generalizing i with
  | nil l => contradiction
  | @cons l m u t ts hnext ht heof hrun ih =>
    cases i with
    | zero => exact ⟨l, u, .nil l, hnext, ht⟩
    | succ i =>
      obtain ⟨k, v, hfront, hv, hreply⟩ := ih (Nat.lt_of_succ_lt_succ hi)
      exact ⟨k, v, .cons hnext ht heof hfront, hv, hreply⟩

end Lexer.Run

/-- **Each token of a source comes from a lexer that has run through the tokens in front of it.** -/
theorem exists_run_take_of_tokenize {source : Text} {tokens : List Token}
    (h : tokenize source = .ok (.ok tokens)) {i : Nat} (hi : i < tokens.length) :
    ∃ k u, Lexer.Run (.ofSource source) (tokens.take i) k ∧ k.next = .ok u ∧
      u.reply = .ok tokens[i] := by
  obtain ⟨ts, m, hrun, hrest, rfl⟩ := exists_run_of_tokenize h
  by_cases hlt : i < ts.length
  · rw [List.take_append_of_le_length (Nat.le_of_lt hlt), List.getElem_append_left hlt]
    exact hrun.exists_next_getElem hlt
  · -- the end of the input stands behind the whole run
    obtain rfl : i = ts.length := by
      rw [List.length_append, List.length_singleton] at hi
      omega
    refine ⟨m, m.finish, ?_, ?_, ?_⟩
    · simpa using hrun
    · rw [Lexer.next, hrest]
    · simp [Lexer.finish]

/-! ## The hidden tokens of a source -/

/-- A newline does not end a logical line at the start of a line or in brackets, unless a
continuation is right in front of it. -/
theorem Surroundings.endsLine_eq_false_iff (s : Surroundings) :
    s.endsLine = false ↔
      s.afterContinuation = false ∧ (s.lineStart = true ∨ s.inBrackets = true) := by
  obtain ⟨lineStart, inBrackets, afterContinuation⟩ := s
  cases lineStart <;> cases inBrackets <;> cases afterContinuation <;> simp [endsLine]

/-- **Visibility is determined by the stream**: a token of a source is hidden exactly if it is
space, a comment or a continuation, or if it is a newline that is not right behind a continuation
and starts at column zero or with brackets open in front of it. -/
theorem visible_eq_false_iff {source : Text} {tokens : List Token}
    (h : tokenize source = .ok (.ok tokens)) {i : Nat} (hi : i < tokens.length) :
    tokens[i].visible = false ↔
      tokens[i].kind ∈ Kind.hidden ∨
        tokens[i].kind = .layout .newline ∧
          (i = 0 ∨ tokens[i - 1]?.map (·.kind) ≠ some (.layout .continuation)) ∧
          (tokens[i].span.column = 0 ∨ 0 < Token.depth (tokens.take i)) := by
  obtain ⟨k, u, hrun, hnext, hreply⟩ := exists_run_take_of_tokenize h hi
  obtain ⟨stop, hspan⟩ := Lexer.replySpan_of_next hnext
  rw [hreply] at hspan
  have hfollows := hrun.follows (Context.follows_ofSource source .unknown)
  -- the surroundings of the token, read off the tokens in front of it
  have hline : k.surroundings.lineStart = true ↔ tokens[i].span.column = 0 := by
    rw [show tokens[i].span = k.spanTo stop from hspan]
    exact (hrun.reachable .start).atLineStart_iff
  have hbrackets : k.surroundings.inBrackets = true ↔ 0 < Token.depth (tokens.take i) := by
    have hdepth : k.context.depth = Token.depth (tokens.take i) := hfollows.counts.depth_eq
    rw [← hdepth]
    exact decide_eq_true_iff
  have hcontinuation : k.surroundings.afterContinuation = false ↔
      (i = 0 ∨ tokens[i - 1]?.map (·.kind) ≠ some (.layout .continuation)) := by
    rw [show k.surroundings.afterContinuation = _ from hfollows.afterContinuation]
    cases i with
    | zero => simp
    | succ i =>
      have hlast : tokens[i]? = some tokens[i] := List.getElem?_eq_getElem (by omega)
      simp [List.getLast?_take, hlast]
  rw [Lexer.visible_of_next hnext hreply, Kind.visibleIf_eq_false_iff,
    Surroundings.endsLine_eq_false_iff, hline, hbrackets, hcontinuation]

/-- In brackets the first newline is hidden. The second starts at column zero and is visible, as it
is right behind a continuation. -/
theorem visible_eq_false_iff_continuation :
    ∃ tokens, tokenize ['(', '\n', ')', '\\', '\n', '\n'] = .ok (.ok tokens) ∧
      tokens.map (·.visible) = [true, false, true, false, true, true] ∧
      ∀ i (hi : i < tokens.length), tokens[i].visible = false ↔
        tokens[i].kind ∈ Kind.hidden ∨
          tokens[i].kind = .layout .newline ∧
            (i = 0 ∨ tokens[i - 1]?.map (·.kind) ≠ some (.layout .continuation)) ∧
            (tokens[i].span.column = 0 ∨ 0 < Token.depth (tokens.take i)) := by
  have h : tokenize ['(', '\n', ')', '\\', '\n', '\n'] = .ok (.ok [
      ⟨.symbol .leftParen, ['('], ⟨0, 1, 1, 0, ⟨0⟩⟩, true⟩,
      ⟨.layout .newline, ['\n'], ⟨1, 2, 1, 1, ⟨0⟩⟩, false⟩,
      ⟨.symbol .rightParen, [')'], ⟨2, 3, 2, 0, ⟨0⟩⟩, true⟩,
      ⟨.layout .continuation, ['\\', '\n'], ⟨3, 5, 2, 1, ⟨0⟩⟩, false⟩,
      ⟨.layout .newline, ['\n'], ⟨5, 6, 3, 0, ⟨0⟩⟩, true⟩,
      ⟨.eof, [], ⟨6, 6, 4, 0, ⟨0⟩⟩, true⟩]) := by decide +kernel
  exact ⟨_, h, rfl, fun i hi => visible_eq_false_iff h hi⟩

end Lexis
