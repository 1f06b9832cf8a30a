import Lexis.Proofs.LineEnding

/-!
# Either line ending

A source with a carriage return in front of each line feed has the tokens of the source without
them, on the same lines and in the same columns. One token is different: a string literal on one
line can go over a line feed only behind a backslash, and the backslash takes the carriage return in
its place. So the literal is not closed, and lexing fails where the first such literal starts.

* `Token.isFolded`: the tokens that go over a line feed that way.
* `Lexer.Mirrors`: two lexers at the same place, the one of a source and the other of the source
  with carriage returns. `Lexer.Mirrors.token` takes both over a token, `Lexer.Mirrors.run` over
  many, and `Lexer.Mirrors.error` is where they part.
* `tokenize_crlf`: the tokens with the other ending.
-/

namespace Lexis

namespace Token

/-- Whether the token is a string literal on one line that goes over a line feed. -/
def isFolded (t : Token) : Bool := t.kind.isFolded t.text

/-- The second token is to `source` with carriage returns what the first is to `source`. -/
structure Matches (source : Text) (t t' : Token) : Prop where
  kind_eq : t'.kind = t.kind
  visible_eq : t'.visible = t.visible
  line_eq : t'.span.line = t.span.line
  column_eq : t'.span.column = t.span.column
  sourceText_eq : t'.sourceText source.crlf = (t.sourceText source).crlf

/-- The end of the input is no literal. -/
theorem isEof_eq_false_of_isFolded {t : Token} (h : t.isFolded = true) : t.isEof = false := by
  simp only [isFolded, Kind.isFolded, Bool.and_eq_true, decide_eq_true_eq] at h
  simp [isEof, h.1.1]

end Token

namespace Lexer

/-! ## Two lexers at the same place -/

/-- The lexer `l` has read `before` of `source`, and `k` has read the same with carriage returns and
has come to the same context. -/
structure Mirrors (source before : Text) (l k : Lexer) : Prop where
  stands : l.Stands source before
  stands_crlf : k.Stands source.crlf before.crlf
  context_eq : k.context = l.context

theorem mirrors_ofSource (source : Text) :
    Mirrors source [] (ofSource source) (ofSource source.crlf) :=
  ⟨stands_ofSource source .unknown, stands_ofSource source.crlf .unknown, rfl⟩

namespace Mirrors

variable {source before : Text} {l k : Lexer} {u : Turn} {t : Token}

theorem rest_eq (h : Mirrors source before l k) : k.rest = l.rest.crlf := by
  have happend := h.stands_crlf.append_rest
  rw [← h.stands.append_rest, Text.crlf_append] at happend
  exact List.append_cancel_left happend

theorem line_eq (h : Mirrors source before l k) : k.mark.line = l.mark.line := by
  rw [h.stands.mark_eq, h.stands_crlf.mark_eq]
  exact congrArg (1 + ·) (Text.count_crlf before)

theorem column_eq (h : Mirrors source before l k) : k.mark.column = l.mark.column := by
  rw [h.stands.mark_eq, h.stands_crlf.mark_eq]
  exact congrArg List.length (Text.lastLine_crlf before)

theorem surroundings_eq (h : Mirrors source before l k) : k.surroundings = l.surroundings := by
  unfold surroundings atLineStart
  rw [h.column_eq, h.context_eq]

/-- What the second lexer answers is where the answer of the first is. -/
theorem replySpan_eq (h : Mirrors source before l k) {v : Turn} (hnext : l.next = .ok u)
    (hnext' : k.next = .ok v) :
    (replySpan v.reply).line = (replySpan u.reply).line ∧
      (replySpan v.reply).column = (replySpan u.reply).column := by
  obtain ⟨stop, hspan⟩ := replySpan_of_next hnext
  obtain ⟨stop', hspan'⟩ := replySpan_of_next hnext'
  rw [hspan, hspan']
  exact ⟨h.line_eq, h.column_eq⟩

/-- What the first lexer takes, the second takes with carriage returns. -/
theorem exists_takes (h : Mirrors source before l k) (hsize : Text.byteSize source < 2 ^ 28)
    (hreturn : '\r' ∉ source) {front rest : Text} (htakes : l.Takes front rest u)
    (ht : u.reply = .ok t) (hfold : t.isFolded = false) :
    ∃ v t', k.Takes front.crlf rest.crlf v ∧ v.reply = .ok t' ∧ t'.kind = t.kind ∧
      t'.visible = t.visible := by
  cases htakes with
  | lexeme hrest hextent hlexeme =>
    obtain rfl := Except.ok.inj ht
    have hreturn' : '\r' ∉ front ++ rest := by
      rw [← h.stands.append_rest, hrest] at hreturn
      exact fun hmem => hreturn (List.mem_append_right _ hmem)
    have hextent' := hextent.crlf hreturn' hlexeme hfold
    rw [← h.surroundings_eq] at hextent'
    have hrest' : k.rest = front.crlf ++ rest.crlf := by
      rw [h.rest_eq, hrest, Text.crlf_append]
    obtain ⟨v, t', htakes', ht', hkind, -, hvisible⟩ := h.stands_crlf.exists_takes
      (Text.byteSize_crlf_lt hsize) hrest' hextent' (by rw [Scan.crlf, hlexeme]; rfl)
    exact ⟨v, t', htakes', ht', hkind, hvisible⟩

/-- **Both lexers give a token**, and come to the same place again. -/
theorem token (h : Mirrors source before l k) (hsize : Text.byteSize source < 2 ^ 28)
    (hreturn : '\r' ∉ source) (hnext : l.next = .ok u) (ht : u.reply = .ok t)
    (heof : t.isEof = false) (hfold : t.isFolded = false) :
    ∃ v t' front, k.next = .ok v ∧ v.reply = .ok t' ∧ t'.isEof = false ∧ t.Matches source t' ∧
      Mirrors source (before ++ front) u.lexer v.lexer := by
  obtain ⟨front, rest, htakes⟩ := exists_takes_of_next hnext ht heof
  obtain ⟨v, t', htakes', ht', hkind, hvisible⟩ := h.exists_takes hsize hreturn htakes ht hfold
  obtain ⟨hspans, hstands⟩ := htakes.spans h.stands ht
  obtain ⟨hspans', hstands'⟩ := htakes'.spans h.stands_crlf ht'
  have hnext' := htakes'.next_eq
  have heof' := htakes'.isEof_eq_false ht'
  have hplace := h.replySpan_eq hnext hnext'
  rw [ht, ht'] at hplace
  have hsource : t'.sourceText source.crlf = (t.sourceText source).crlf := by
    rw [← hstands.append_rest, hspans.sourceText_eq, Text.crlf_append, Text.crlf_append,
      hspans'.sourceText_eq]
  have hcontext : v.lexer.context = u.lexer.context := by
    have hafter := context_of_token hnext ht heof
    have hafter' := context_of_token hnext' ht' heof'
    rw [hkind, h.context_eq, hafter] at hafter'
    exact (Except.ok.inj hafter').symm
  refine ⟨v, t', front, hnext', ht', heof', ⟨hkind, hvisible, hplace.1, hplace.2, hsource⟩,
    hstands, ?_, hcontext⟩
  rw [Text.crlf_append]
  exact hstands'

/-- **Both lexers run through the same tokens.** -/
theorem run {m : Lexer} {ts : List Token} (h : Mirrors source before l k)
    (hsize : Text.byteSize source < 2 ^ 28) (hreturn : '\r' ∉ source) (hrun : Run l ts m)
    (hfold : ∀ t ∈ ts, t.isFolded = false) :
    ∃ ts' n after, Run k ts' n ∧ List.Forall₂ (Token.Matches source) ts ts' ∧
      Mirrors source after m n := by
  induction hrun generalizing before k with
  | nil l => exact ⟨[], k, before, .nil k, .nil, h⟩
  | @cons l m u t ts hnext ht heof hrun ih =>
    obtain ⟨v, t', front, hnext', ht', heof', hmatches, hmirrors⟩ :=
      h.token hsize hreturn hnext ht heof (hfold t List.mem_cons_self)
    obtain ⟨ts', n, after, hrun', hall, hend⟩ :=
      ih hmirrors fun s hs => hfold s (List.mem_cons_of_mem _ hs)
    exact ⟨t' :: ts', n, after, .cons hnext' ht' heof' hrun', .cons hmatches hall, hend⟩

/-- **Where the first lexer goes over a line feed on one line**, the second fails. -/
theorem error (h : Mirrors source before l k) (hsize : Text.byteSize source < 2 ^ 28)
    (hnext : l.next = .ok u) (ht : u.reply = .ok t) (hfold : t.isFolded = true) :
    ∃ v e, k.next = .ok v ∧ v.reply = .error e ∧
      e.cause = .unterminatedString (.ofLiteral t.text) ∧ e.span.line = t.span.line ∧
      e.span.column = t.span.column := by
  obtain ⟨front, rest, htakes⟩ :=
    exists_takes_of_next hnext ht (Token.isEof_eq_false_of_isFolded hfold)
  obtain ⟨v, hnext'⟩ := h.stands_crlf.exists_next (Text.byteSize_crlf_lt hsize)
  have hplace := h.replySpan_eq hnext hnext'
  cases htakes with
  | @lexeme r lexeme _ _ hrest hextent hlexeme =>
    obtain rfl := Except.ok.inj ht
    have hne : k.rest ≠ [] := by
      rw [h.rest_eq, hrest]
      exact Text.crlf_ne_nil (List.append_ne_nil_of_left_ne_nil hextent.front_ne_nil rest)
    have hscan : ∀ {c : Char} {t : Text}, k.rest = c :: t → ∃ read, scan k.surroundings c t =
        .reject (.unterminatedString (.ofLiteral lexeme.text)) read := by
      intro c t hk
      rw [h.surroundings_eq]
      rw [h.rest_eq, hrest] at hk
      exact hextent.exists_scan_crlf hlexeme hfold hk.symm
    cases answers_of_next hnext' with
    | eof hk => contradiction
    | token hk hstop hlexeme' hcontext =>
      obtain ⟨read, hread⟩ := hscan hk
      rw [hread] at hlexeme'
      contradiction
    | error hk hstop hcause =>
      obtain ⟨read, hread⟩ := hscan hk
      rw [hread] at hcause
      obtain rfl := Except.error.inj hcause
      exact ⟨_, _, hnext', rfl, rfl, hplace.1, hplace.2⟩

/-- **Both lexers come to the end of the input.** -/
theorem eof (h : Mirrors source before l k) (hrest : l.rest = []) :
    k.next = .ok k.finish ∧ l.eofToken.Matches source k.eofToken := by
  have hrest' : k.rest = [] := by
    rw [h.rest_eq, hrest]
    rfl
  refine ⟨by rw [next, hrest'], rfl, rfl, h.line_eq, h.column_eq, ?_⟩
  have hspans := (h.stands.spans_eofToken hrest).2
  have hspans' := (h.stands_crlf.spans_eofToken hrest').2
  calc k.eofToken.sourceText source.crlf = [] := by simpa using hspans'.sourceText_eq []
    _ = (l.eofToken.sourceText source).crlf := by
        have htext : l.eofToken.sourceText source = [] := by simpa using hspans.sourceText_eq []
        rw [htext, Text.crlf_nil]

end Mirrors

end Lexer

/-- **Either line ending**: on a source of less than `2 ^ 28` bytes without carriage returns where
lexing succeeds, it succeeds with a carriage return in front of each line feed, and gives the same
tokens in the same places, if no string literal on one line goes over a line feed. If one does, it
fails where the first of them starts, which is not closed any more. -/
theorem tokenize_crlf {source : Text} {tokens : List Token} (hsize : Text.byteSize source < 2 ^ 28)
    (hreturn : '\r' ∉ source) (h : tokenize source = .ok (.ok tokens)) :
    ((∀ t ∈ tokens, t.isFolded = false) →
      ∃ tokens', tokenize source.crlf = .ok (.ok tokens') ∧
        List.Forall₂ (Token.Matches source) tokens tokens') ∧
    ∀ t, tokens.find? (·.isFolded) = some t →
      ∃ e, tokenize source.crlf = .ok (.error e) ∧
        e.cause = .unterminatedString (.ofLiteral t.text) ∧ e.span.line = t.span.line ∧
        e.span.column = t.span.column := by
  have hstart := Lexer.mirrors_ofSource source
  constructor
  · intro hfold
    obtain ⟨ts, m, hrun, hrest, rfl⟩ := exists_run_of_tokenize h
    obtain ⟨ts', n, after, hrun', hall, hend⟩ := hstart.run hsize hreturn hrun
      fun t ht => hfold t (List.mem_append_left _ ht)
    obtain ⟨hnext', hmatches⟩ := hend.eof hrest
    exact ⟨_, hrun'.tokens_turns hnext' rfl, List.rel_append hall (.cons hmatches .nil)⟩
  · intro t ht
    obtain ⟨hfold, front, behind, rfl, hbefore⟩ := List.find?_eq_some_iff_append.mp ht
    have hi : front.length < (front ++ t :: behind).length := by simp
    obtain ⟨l, u, hrun, hnext, hreply⟩ := exists_run_take_of_tokenize h hi
    rw [List.take_left] at hrun
    rw [List.getElem_append_right (Nat.le_refl _)] at hreply
    obtain ⟨ts', k, after, hrun', -, hmirrors⟩ := hstart.run hsize hreturn hrun
      fun s hs => by simpa using hbefore s hs
    obtain ⟨v, e, hnext', he, hcause, hplace⟩ :=
      hmirrors.error hsize hnext (by simpa using hreply) hfold
    refine ⟨e, ?_, hcause, hplace⟩
    have htokens := hrun'.tokens_turns hnext' (by rw [he]; rfl)
    rwa [he] at htokens

/-- A backslash in front of a line feed, once between triple quotes and once on one line. -/
theorem tokenize_crlf_backslash :
    (∃ tokens tokens',
      tokenize ['"', '"', '"', '\\', '\n', '"', '"', '"', '\n'] = .ok (.ok tokens) ∧
      tokenize ['"', '"', '"', '\\', '\r', '\n', '"', '"', '"', '\r', '\n'] = .ok (.ok tokens') ∧
      List.Forall₂ (Token.Matches ['"', '"', '"', '\\', '\n', '"', '"', '"', '\n']) tokens
        tokens') ∧
    ∃ tokens e, tokenize ['x', 'u', '\n', 'r', '\'', '\\', '\n', '\''] = .ok (.ok tokens) ∧
      tokenize ['x', 'u', '\r', '\n', 'r', '\'', '\\', '\r', '\n', '\''] = .ok (.error e) ∧
      e.cause = .unterminatedString .single ∧ e.span.line = 2 ∧ e.span.column = 0 := by
  have htriple : tokenize ['"', '"', '"', '\\', '\n', '"', '"', '"', '\n'] = .ok (.ok [
      ⟨.literal .string, ['"', '"', '"', '\\', '\n', '"', '"', '"'], ⟨0, 8, 1, 0, ⟨0⟩⟩, true⟩,
      ⟨.layout .newline, ['\n'], ⟨8, 9, 2, 3, ⟨0⟩⟩, true⟩,
      ⟨.eof, [], ⟨9, 9, 3, 0, ⟨0⟩⟩, true⟩]) := by decide +kernel
  have hline : tokenize ['x', 'u', '\n', 'r', '\'', '\\', '\n', '\''] = .ok (.ok [
      ⟨.name, ['x', 'u'], ⟨0, 2, 1, 0, ⟨0⟩⟩, true⟩,
      ⟨.layout .newline, ['\n'], ⟨2, 3, 1, 2, ⟨0⟩⟩, true⟩,
      ⟨.literal .string, ['r', '\'', '\\', '\n', '\''], ⟨3, 8, 2, 0, ⟨0⟩⟩, true⟩,
      ⟨.eof, [], ⟨8, 8, 3, 1, ⟨0⟩⟩, true⟩]) := by decide +kernel
  obtain ⟨tokens', htokens', hall⟩ :=
    (tokenize_crlf (by decide) (by decide) htriple).1 (by decide)
  obtain ⟨e, he, hcause, hplace⟩ :=
    (tokenize_crlf (by decide) (by decide) hline).2 _ rfl
  exact ⟨⟨_, tokens', htriple, htokens', hall⟩, _, e, hline, he, hcause, hplace⟩

end Lexis
