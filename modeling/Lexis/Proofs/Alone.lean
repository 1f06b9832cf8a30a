import Lexis.Proofs.LineColumn
import Lexis.Proofs.Lookahead
import Lexis.Proofs.Visibility

/-!
# Tokens on their own

A token is what it is by its own text. Cut out of its source, the text of a token is a source with
that one token, of the same kind and with the same text. Only space is different: what is plain
space behind a word or inside brackets is indentation at the start of a source.

* `Mark.exists_advance_of_le`: a text that is passed from one place is passed from an earlier one.
* `Extent.alone`: a text that is read as a whole is read at the start of a source as well.
* `Lexer.Takes.exists_tokenize`: what a lexer takes is a source with that one token.
* `tokenize_sourceText`: the tokens of the source text of a token.
-/

namespace Lexis

/-! ## Places -/

namespace Mark

variable {m k n : Mark}

theorem exists_step_of_le {c : Char} (h : m.step c = .ok n) (hline : k.line ≤ m.line)
    (hcolumn : k.column ≤ m.column) :
    ∃ p, k.step c = .ok p ∧ p.line ≤ n.line ∧ p.column ≤ n.column := by
  unfold step at h ⊢
  split
  · rename_i hc
    rw [if_pos hc] at h
    obtain ⟨line, hword, rfl⟩ := Checked.map_eq_ok_iff.mp h
    obtain ⟨hlt, rfl⟩ := Checked.word_eq_ok_iff.mp hword
    rw [Checked.word_of_lt (show k.line + 1 < Checked.wordSize by omega)]
    exact ⟨_, rfl, by dsimp only; omega, Nat.le_refl 0⟩
  · rename_i hc
    rw [if_neg hc] at h
    obtain ⟨column, hword, rfl⟩ := Checked.map_eq_ok_iff.mp h
    obtain ⟨hlt, rfl⟩ := Checked.word_eq_ok_iff.mp hword
    rw [Checked.word_of_lt (show k.column + 1 < Checked.wordSize by omega)]
    exact ⟨_, rfl, hline, by dsimp only; omega⟩

/-- A text that is passed without a fault is passed so from an earlier line and column. -/
theorem exists_advance_of_le {t : Text} (h : m.advance t = .ok n) (hline : k.line ≤ m.line)
    (hcolumn : k.column ≤ m.column) : ∃ p, k.advance t = .ok p := by
  induction t generalizing m k with
  | nil => exact ⟨k, rfl⟩
  | cons c t ih =>
    obtain ⟨m', hm', hn⟩ := advance_cons_eq_ok_iff.mp h
    obtain ⟨k', hk', hline', hcolumn'⟩ := exists_step_of_le hm' hline hcolumn
    obtain ⟨p, hp⟩ := ih hn hline' hcolumn'
    exact ⟨p, advance_cons_eq_ok_iff.mpr ⟨k', hk', hp⟩⟩

end Mark

/-! ## Reading a text as a whole -/

/-- **What is read as a whole is read so at the start of a source**, space apart. Only the
visibility of a newline may differ. -/
theorem Extent.alone {s s' : Surroundings} {front : Text} {r : Scan} {lexeme : Lexeme}
    (h : Extent s front [] r) (hlexeme : r.result = .ok lexeme)
    (hkind : lexeme.kind ≠ .layout .blank) (hstart : s'.lineStart = true)
    (hbrackets : s'.inBrackets = false) :
    ∃ visible, Extent s' front [] { r with result := .ok { lexeme with visible } } := by
  cases h with
  | newline hne hbreak =>
    obtain rfl := Except.ok.inj hlexeme
    exact ⟨s'.endsLine, .newline hne hbreak⟩
  | blank =>
    obtain rfl := Except.ok.inj hlexeme
    contradiction
  | bracketed =>
    obtain rfl := Except.ok.inj hlexeme
    contradiction
  | indentation _ _ hne hspace hend hhash hbreaks =>
    obtain rfl := Except.ok.inj hlexeme
    exact ⟨false, .indentation hstart hbrackets hne hspace hend hhash hbreaks⟩
  | lineComment _ hspace htext hbreaks =>
    obtain rfl := Except.ok.inj hlexeme
    exact ⟨false, .lineComment hstart hspace htext hbreaks⟩
  | @comment text _ _ htext =>
    -- no line break is left for a comment that starts a line
    obtain rfl := Except.ok.inj hlexeme
    have h : Extent s' ([] ++ '#' :: (text ++ [])) [] _ :=
      .lineComment hstart (fun _ hc => absurd hc List.not_mem_nil) htext rfl
    rw [List.append_nil] at h
    exact ⟨false, h⟩
  | continuation hfeed hspace hend =>
    obtain rfl := Except.ok.inj hlexeme
    exact ⟨false, .continuation hfeed hspace hend⟩
  | @code c tail _ _ lexeme' h hread hok =>
    obtain rfl := Except.ok.inj (hok.symm.trans hlexeme)
    refine ⟨lexeme'.visible, ?_⟩
    rw [← hok]
    exact .code h hread hok

/-! ## The source of a token -/

namespace Lexer

/-- **What a lexer takes is a source with that one token**, space apart. -/
theorem Takes.exists_tokenize {l : Lexer} {front rest : Text} {u : Turn} {t : Token}
    (h : l.Takes front rest u) (ht : u.reply = .ok t) (hline : 1 ≤ l.mark.line)
    (hkind : t.kind ≠ .layout .blank) :
    ∃ t' e, tokenize front = .ok (.ok [t', e]) ∧ t'.isEof = false ∧ e.isEof = true ∧
      t'.kind = t.kind ∧ t'.text = t.text := by
  cases h with
  | @lexeme r lexeme stop context hrest hextent hlexeme hstop hindent hcontext =>
    obtain rfl := Except.ok.inj ht
    have hstart : (ofSource front).surroundings.lineStart = true := rfl
    obtain ⟨visible, halone⟩ :=
      (hextent.onto (Text.bars_nil rest)).alone hlexeme hkind hstart rfl
    -- the counts are smaller at the start of a source
    obtain ⟨stop', hstop'⟩ := Mark.exists_advance_of_le (k := Mark.origin) hstop hline
      (Nat.zero_le _)
    obtain ⟨context', hcontext'⟩ := Context.exists_after (x := {}) lexeme.kind (by decide)
    have htakes : (ofSource front).Takes front [] _ :=
      .lexeme (List.append_nil front).symm halone rfl hstop' hindent hcontext'
    have heof := htakes.isEof_eq_false rfl
    have hrun := Run.cons htakes.next_eq rfl heof (.nil _)
    exact ⟨_, _, hrun.tokens_turns rfl rfl, heof, rfl, rfl, rfl⟩

end Lexer

/-- **A token is what it is by its own text**: every token of a source, the end of the input and
plain space apart, has a source text whose tokens are one of the same kind and with the same text,
and the end of the input. -/
theorem tokenize_sourceText {source : Text} {tokens : List Token}
    (h : tokenize source = .ok (.ok tokens)) {t : Token} (ht : t ∈ tokens) (heof : t.isEof = false)
    (hkind : t.kind ≠ .layout .blank) :
    ∃ t' e, tokenize (t.sourceText source) = .ok (.ok [t', e]) ∧ t'.isEof = false ∧
      e.isEof = true ∧ t'.kind = t.kind ∧ t'.text = t.text := by
  obtain ⟨i, hi, rfl⟩ := List.mem_iff_getElem.mp ht
  obtain ⟨l, u, hrun, hnext, hreply⟩ := exists_run_take_of_tokenize h hi
  have hstands := hrun.stands (Lexer.stands_ofSource source .unknown)
  obtain ⟨front, rest, htakes⟩ := Lexer.exists_takes_of_next hnext hreply heof
  obtain ⟨hspans, hnext⟩ := htakes.spans hstands hreply
  rw [← hnext.append_rest, hspans.sourceText_eq]
  refine htakes.exists_tokenize hreply ?_ hkind
  rw [hstands.mark_eq]
  exact Nat.le_add_right 1 _

/-- A comment behind a bracket, in front of a line break: it starts no line and leaves the break. -/
theorem tokenize_sourceText_comment :
    ∃ tokens t, tokenize ['(', '#', ' ', 'c', '\r', '\n'] = .ok (.ok tokens) ∧ t ∈ tokens ∧
      t.kind = .layout .comment ∧ t.span.column = 1 ∧
      ∃ t' e, tokenize ['#', ' ', 'c'] = .ok (.ok [t', e]) ∧ t'.isEof = false ∧
        e.isEof = true ∧ t'.kind = .layout .comment ∧ t'.text = ['#', ' ', 'c'] := by
  have h : tokenize ['(', '#', ' ', 'c', '\r', '\n'] = .ok (.ok [
      ⟨.symbol .leftParen, ['('], ⟨0, 1, 1, 0, ⟨0⟩⟩, true⟩,
      ⟨.layout .comment, ['#', ' ', 'c'], ⟨1, 4, 1, 1, ⟨0⟩⟩, false⟩,
      ⟨.layout .newline, ['\r', '\n'], ⟨4, 6, 1, 4, ⟨0⟩⟩, false⟩,
      ⟨.eof, [], ⟨6, 6, 2, 0, ⟨0⟩⟩, true⟩]) := by decide +kernel
  exact ⟨_, _, h, .tail _ (.head _), rfl, rfl,
    tokenize_sourceText h (.tail _ (.head _)) rfl (by decide)⟩

end Lexis
