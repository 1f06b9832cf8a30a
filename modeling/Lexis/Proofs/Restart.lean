import Lexis.Proofs.History
import Lexis.Proofs.LineColumn

/-!
# Lexing from the start of a line

At the start of a line, outside brackets and behind no continuation, a lexer goes on as a new one
would on what is left of the source: it gives the same results, with all spans moved by what the
first has read. What the two differ in, the tokens produced and the closing brackets without an open
one, has no part in any result.

* `Shift`: a distance in a source, with `Mark.shift`, `Span.shift` and `Call.Result.shift`.
* `Mark.eq_shift_of_advance`: marks that are apart stay so along a text.
* `Lexer.Ahead`: two lexers with the same text in front of them, one of them further on.
* `Lexer.Ahead.call`, `Lexer.Ahead.exists_session`: what one call and a whole session give back.
* `Lexer.session_restarts`: lexing can start again at every clean start of a line.
-/

namespace Lexis

/-! ## Moving places and results -/

/-- A distance in a source. -/
structure Shift where
  /-- So many bytes further on, -/
  bytes : Nat
  /-- and so many lines. -/
  lines : Nat

/-- A mark, moved with its line. -/
def Mark.shift (d : Shift) (m : Mark) : Mark := ⟨m.offset + d.bytes, m.line + d.lines, m.column⟩

/-- A span, moved with its line. -/
def Span.shift (d : Shift) (s : Span) : Span :=
  { s with start := s.start + d.bytes, stop := s.stop + d.bytes, line := s.line + d.lines }

/-- A reply, with its span moved. -/
def Lexer.shiftReply (d : Shift) : Except LexError Token → Except LexError Token
  | .ok t => .ok { t with span := t.span.shift d }
  | .error e => .error { e with span := e.span.shift d }

/-- A result, with its span moved if it has one. -/
def Call.Result.shift (d : Shift) : Call.Result → Call.Result
  | .reply answer => .reply (Lexer.shiftReply d answer)
  | .item found => .item (found.map (Lexer.shiftReply d))
  | .skipped char? => .skipped char?

namespace Mark

variable {d : Shift} {m k n p : Mark}

/-- Marks that are apart stay so over a character, -/
theorem eq_shift_of_step {c : Char} (hm : m = k.shift d) (hn : m.step c = .ok n)
    (hp : k.step c = .ok p) : n = p.shift d := by
  subst hm
  obtain ⟨hc, rfl⟩ | ⟨hc, rfl⟩ := step_eq_ok hn
  · obtain ⟨-, rfl⟩ | ⟨hne, -⟩ := step_eq_ok hp
    · simp [shift, Nat.add_right_comm]
    · contradiction
  · obtain ⟨heq, -⟩ | ⟨-, rfl⟩ := step_eq_ok hp
    · contradiction
    · simp [shift, Nat.add_right_comm]

/-- and so along a text. -/
theorem eq_shift_of_advance {t : Text} (hm : m = k.shift d) (hn : m.advance t = .ok n)
    (hp : k.advance t = .ok p) : n = p.shift d := by
  induction t generalizing m k with
  | nil =>
    obtain rfl := Except.ok.inj hn
    obtain rfl := Except.ok.inj hp
    exact hm
  | cons c t ih =>
    obtain ⟨m', hm', hn'⟩ := advance_cons_eq_ok_iff.mp hn
    obtain ⟨k', hk', hp'⟩ := advance_cons_eq_ok_iff.mp hp
    exact ih (eq_shift_of_step hm hm' hk') hn' hp'

end Mark

namespace Lexer

/-! ## Two lexers in front of the same text -/

/-- The lexer `l` is as far ahead of `k` as `d` says, and has all else that a token depends on in
common with it. -/
structure Ahead (d : Shift) (l k : Lexer) : Prop where
  file_eq : l.file = k.file
  rest_eq : l.rest = k.rest
  mark_eq : l.mark = k.mark.shift d
  depth_eq : l.context.depth = k.context.depth
  afterContinuation_eq : l.context.afterContinuation = k.context.afterContinuation
  atLineStart_eq : l.atLineStart = k.atLineStart

namespace Ahead

variable {d : Shift} {l k m n : Lexer}

theorem surroundings_eq (h : Ahead d l k) : l.surroundings = k.surroundings := by
  unfold surroundings Context.inBrackets
  rw [h.atLineStart_eq, h.depth_eq, h.afterContinuation_eq]

/-- The spans over what both lexers read. -/
theorem spanTo_eq (h : Ahead d l k) {t : Text} {stop stop' : Mark}
    (hstop : l.mark.advance t = .ok stop) (hstop' : k.mark.advance t = .ok stop') :
    l.spanTo stop.offset = (k.spanTo stop'.offset).shift d := by
  unfold spanTo
  rw [Mark.eq_shift_of_advance h.mark_eq hstop hstop', h.mark_eq, h.file_eq]
  rfl

/-- Behind something that both have read, a line starts for both or for none. -/
theorem atLineStart_of_read (hmark : m.mark = n.mark.shift d) (hm : m.context.atStart = false)
    (hn : n.context.atStart = false) : m.atLineStart = n.atLineStart := by
  unfold atLineStart
  rw [hm, hn, hmark]
  rfl

/-- **Asked for a token**, both lexers give the same reply, one of them further on. -/
theorem next (h : Ahead d l k) {u v : Turn} (hu : l.next = .ok u) (hv : k.next = .ok v) :
    u.reply = shiftReply d v.reply ∧ Ahead d u.lexer v.lexer := by
  have hsurroundings := h.surroundings_eq
  cases answers_of_next hu with
  | eof hnil =>
    rw [h.rest_eq] at hnil
    cases answers_of_next hv with
    | eof =>
      have hspan := h.spanTo_eq (Mark.advance_nil l.mark) (Mark.advance_nil k.mark)
      refine ⟨?_, ⟨h.file_eq, h.rest_eq, h.mark_eq, h.depth_eq, h.afterContinuation_eq,
        h.atLineStart_eq⟩⟩
      simp only [finish, eofToken, shiftReply, hspan]
    | token hcons => simp [hnil] at hcons
    | error hcons => simp [hnil] at hcons
  | token hcons hstop hlexeme hcontext =>
    rw [h.rest_eq] at hcons
    rw [hsurroundings] at hstop hlexeme
    cases answers_of_next hv with
    | eof hnil => simp [hcons] at hnil
    | token hcons' hstop' hlexeme' hcontext' =>
      obtain ⟨rfl, rfl⟩ := List.cons.inj (hcons.symm.trans hcons')
      obtain rfl := Except.ok.inj (hlexeme.symm.trans hlexeme')
      have hmark := Mark.eq_shift_of_advance h.mark_eq hstop hstop'
      obtain rfl := Context.after_eq_ok hcontext
      obtain rfl := Context.after_eq_ok hcontext'
      refine ⟨?_, ⟨h.file_eq, ?_, hmark, ?_, rfl, atLineStart_of_read hmark rfl rfl⟩⟩
      · simp only [tokenTo, shiftReply, h.spanTo_eq hstop hstop']
      · simp only [hsurroundings]
      · simp only [h.depth_eq]
    | error hcons' hstop' hcause =>
      obtain ⟨rfl, rfl⟩ := List.cons.inj (hcons.symm.trans hcons')
      rw [hlexeme] at hcause
      contradiction
  | error hcons hstop hcause =>
    rw [h.rest_eq] at hcons
    rw [hsurroundings] at hstop hcause
    cases answers_of_next hv with
    | eof hnil => simp [hcons] at hnil
    | token hcons' hstop' hlexeme =>
      obtain ⟨rfl, rfl⟩ := List.cons.inj (hcons.symm.trans hcons')
      rw [hcause] at hlexeme
      contradiction
    | error hcons' hstop' hcause' =>
      obtain ⟨rfl, rfl⟩ := List.cons.inj (hcons.symm.trans hcons')
      obtain rfl := Except.error.inj (hcause.symm.trans hcause')
      refine ⟨?_, h⟩
      simp only [refuse, shiftReply, h.spanTo_eq hstop hstop']

/-- **Passing over a character**, both lexers pass over the same. -/
theorem skip (h : Ahead d l k) {skipped skipped' : Option Char} (hm : l.skip = .ok (skipped, m))
    (hn : k.skip = .ok (skipped', n)) : skipped = skipped' ∧ Ahead d m n := by
  obtain ⟨hnil, rfl, rfl⟩ | ⟨c, mark, hcons, hstep, rfl, hm'⟩ := skip_eq_ok hm
  · obtain ⟨-, rfl, rfl⟩ | ⟨c, mark, hcons, -⟩ := skip_eq_ok hn
    · exact ⟨rfl, h⟩
    · rw [h.rest_eq, hcons] at hnil
      contradiction
  · obtain ⟨hnil, -⟩ | ⟨c', mark', hcons', hstep', rfl, hn'⟩ := skip_eq_ok hn
    · rw [h.rest_eq, hnil] at hcons
      contradiction
    · rw [h.rest_eq, hcons'] at hcons
      obtain ⟨rfl, hrest⟩ := List.cons.inj hcons
      have hmark := Mark.eq_shift_of_step h.mark_eq hstep hstep'
      rw [hm', hn']
      exact ⟨rfl, h.file_eq, hrest.symm, hmark, h.depth_eq, rfl, atLineStart_of_read hmark rfl rfl⟩

/-- **One call** has the same result for both lexers, one of them further on. -/
theorem call (h : Ahead d l k) {c : Call} (hc : c ≠ .iterate) {r r' : Call.Result}
    (hm : l.call c = .ok (r, m)) (hn : k.call c = .ok (r', n)) :
    r = r'.shift d ∧ Ahead d m n := by
  cases c with
  | next =>
    obtain ⟨u, hu, hum⟩ := Checked.map_eq_ok_iff.mp hm
    obtain ⟨v, hv, hvn⟩ := Checked.map_eq_ok_iff.mp hn
    obtain ⟨rfl, rfl⟩ := Prod.mk.inj hum
    obtain ⟨rfl, rfl⟩ := Prod.mk.inj hvn
    obtain ⟨hreply, hahead⟩ := h.next hu hv
    exact ⟨congrArg Call.Result.reply hreply, hahead⟩
  | iterate => contradiction
  | skip =>
    obtain ⟨⟨char?, m'⟩, hskip, hum⟩ := Checked.map_eq_ok_iff.mp hm
    obtain ⟨⟨char?', n'⟩, hskip', hvn⟩ := Checked.map_eq_ok_iff.mp hn
    obtain ⟨rfl, rfl⟩ := Prod.mk.inj hum
    obtain ⟨rfl, rfl⟩ := Prod.mk.inj hvn
    obtain ⟨rfl, hahead⟩ := h.skip hskip hskip'
    exact ⟨rfl, hahead⟩

/-- **A session** has the same results for both lexers, one of them further on. -/
theorem exists_session (h : Ahead d l k) {source source' : Text} {file file' : FileId}
    (hl : Reachable source file l) (hk : Reachable source' file' k)
    (hsize : Text.byteSize source < 2 ^ 29) (hsize' : Text.byteSize source' < 2 ^ 29)
    {calls : List Call} (hcalls : .iterate ∉ calls) :
    ∃ history history' m n, l.session calls = .ok (history, m) ∧
      k.session calls = .ok (history', n) ∧
      history.map (·.result) = history'.map (·.result.shift d) := by
  induction calls generalizing l k with
  | nil => exact ⟨[], [], l, k, rfl, rfl, rfl⟩
  | cons c calls ih =>
    rw [List.mem_cons, not_or] at hcalls
    obtain ⟨hc, hrest⟩ := hcalls
    obtain ⟨r, m, hm⟩ := hl.exists_call hsize c
    obtain ⟨r', n, hn⟩ := hk.exists_call hsize' c
    obtain ⟨rfl, hahead⟩ := h.call (Ne.symm hc) hm hn
    obtain ⟨history, history', m', n', hsession, hsession', hresults⟩ :=
      ih hahead (hl.call hm) (hk.call hn) hrest
    refine ⟨_, _, m', n', session_cons_of_ok hm hsession, session_cons_of_ok hn hsession', ?_⟩
    rw [List.map_cons, List.map_cons, hresults]

end Ahead

/-! ## Starting again -/

/-- At the start of a line, outside brackets and behind no continuation, a lexer is ahead of a new
one on what is left. -/
theorem Stands.ahead {source before : Text} {l : Lexer} (h : l.Stands source before)
    (hcolumn : l.mark.column = 0) (hdepth : l.context.depth = 0)
    (hcontinuation : l.context.afterContinuation = false) :
    Ahead ⟨l.mark.offset, l.mark.line - 1⟩ l (ofSource l.rest l.file) := by
  have hline : 1 ≤ l.mark.line := by
    rw [h.mark_eq]
    exact Nat.le_add_right 1 _
  refine ⟨rfl, rfl, ?_, hdepth, hcontinuation, ?_⟩
  · calc l.mark = ⟨l.mark.offset, l.mark.line, l.mark.column⟩ := rfl
      _ = ⟨0 + l.mark.offset, 1 + (l.mark.line - 1), 0⟩ := by
        rw [hcolumn, Nat.zero_add, Nat.add_sub_cancel' hline]
  · simp [atLineStart, hcolumn, ofSource]

theorem file_of_call {l m : Lexer} {c : Call} {r : Call.Result} (h : l.call c = .ok (r, m)) :
    m.file = l.file := by
  cases serves_of_call h with
  | ended => rfl
  | asked hnext _ _ hm =>
    rw [hm]
    cases answers_of_next hnext with
    | eof => rfl
    | token => rfl
    | error => rfl
  | skipped hskip =>
    obtain ⟨-, -, rfl⟩ | ⟨c, mark, -, -, -, hm⟩ := skip_eq_ok hskip
    · rfl
    · rw [hm]

/-- A session stays in its file. -/
theorem Reachable.file_eq {source : Text} {file : FileId} {l : Lexer}
    (h : Reachable source file l) : l.file = file := by
  induction h with
  | start => rfl
  | call _ hcall ih => exact (file_of_call hcall).trans ih

/-- **Lexing can start again at every clean start of a line**: a lexer that a session on a source of
less than `2 ^ 29` bytes has led to the start of a line, outside brackets and behind no
continuation, answers every further sequence of requests for tokens and passes over characters as a
new lexer on the rest of the source does, with all spans moved by the bytes and lines in front. -/
theorem session_restarts {source : Text} {file : FileId} {l : Lexer}
    (hsize : Text.byteSize source < 2 ^ 29) (h : Reachable source file l)
    (hcolumn : l.mark.column = 0) (hdepth : l.context.depth = 0)
    (hcontinuation : l.context.afterContinuation = false) (calls : List Call)
    (hcalls : .iterate ∉ calls) :
    ∃ rest, Text.dropBytes? source l.mark.offset = some rest ∧
      ∃ history history' m n, l.session calls = .ok (history, m) ∧
        (ofSource rest file).session calls = .ok (history', n) ∧
        history.map (·.result) =
          history'.map (·.result.shift ⟨l.mark.offset, l.mark.line - 1⟩) := by
  obtain ⟨before, hstands⟩ := h.stands
  have hahead := hstands.ahead hcolumn hdepth hcontinuation
  rw [h.file_eq] at hahead
  have hsize' : Text.byteSize l.rest < 2 ^ 29 := by
    rw [← hstands.append_rest, Text.byteSize_append] at hsize
    omega
  refine ⟨l.rest, ?_, hahead.exists_session h .start hsize hsize' hcalls⟩
  rw [hstands.offset_eq, ← hstands.append_rest]
  exact Text.dropBytes?_append before l.rest

/-- Behind a closing bracket without an open one: indentation, a bracket and a character that no
rule takes and that is passed over. -/
theorem session_restarts_stray_closer :
    Text.byteSize [')', '\n', ' ', '(', '$'] < 2 ^ 29 ∧
      ∃ l, Reachable [')', '\n', ' ', '(', '$'] ⟨3⟩ l ∧ l.mark = ⟨2, 2, 0⟩ ∧
        l.context = ⟨0, false, false, 1⟩ ∧
        ∃ history history' m n,
          l.session [.next, .next, .next, .skip, .next] = .ok (history, m) ∧
          (ofSource [' ', '(', '$'] ⟨3⟩).session [.next, .next, .next, .skip, .next] =
            .ok (history', n) ∧
          history.map (·.result) = history'.map (·.result.shift ⟨2, 1⟩) := by
  have hsize : Text.byteSize [')', '\n', ' ', '(', '$'] < 2 ^ 29 := by decide
  have hfirst : (ofSource [')', '\n', ' ', '(', '$'] ⟨3⟩).call .next =
      .ok (_, ⟨⟨3⟩, ['\n', ' ', '(', '$'], ⟨1, 1, 1⟩, ⟨0, false, false, 1⟩, 1, false, false⟩) := rfl
  have hsecond : Lexer.call
      ⟨⟨3⟩, ['\n', ' ', '(', '$'], ⟨1, 1, 1⟩, ⟨0, false, false, 1⟩, 1, false, false⟩ .next =
      .ok (_, ⟨⟨3⟩, [' ', '(', '$'], ⟨2, 2, 0⟩, ⟨0, false, false, 1⟩, 2, false, false⟩) := rfl
  have hreachable := (Reachable.start.call hfirst).call hsecond
  obtain ⟨rest, hrest, hresults⟩ := session_restarts hsize hreachable rfl rfl rfl
    [.next, .next, .next, .skip, .next] (by decide)
  obtain rfl := Option.some.inj hrest
  exact ⟨hsize, _, hreachable, rfl, rfl, hresults⟩

end Lexer

end Lexis
