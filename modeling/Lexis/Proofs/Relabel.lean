import Lexis.Proofs.Iteration

/-!
# Reading under another file number

A lexer carries the number of a file only to write it into the spans of what it answers. So a text
that is read as part of another file gives the same tokens and the same error, each in its place,
and only the number in their spans differs.

* `Lexer.next_inFile`: asked under another number, a lexer gives the same answer under that number.
* `Lexer.Run.inFile`: so does a run.
* `Lexer.Run.exists_turns`: the answers in a mode, up to the end of the input or an error, from the
  run that leads there.
-/

namespace Lexis

/-! ## Other numbers -/

/-- The place in another file. -/
def Span.inFile (file : FileId) (s : Span) : Span := { s with file }

/-- The token in another file. -/
def Token.inFile (file : FileId) (t : Token) : Token := { t with span := t.span.inFile file }

/-- The error in another file. -/
def LexError.inFile (file : FileId) (e : LexError) : LexError :=
  { e with span := e.span.inFile file }

namespace Lexer

/-- The lexer, at work on another file. -/
def inFile (file : FileId) (l : Lexer) : Lexer := { l with file }

/-- The reply about another file. -/
def replyInFile (file : FileId) : Except LexError Token → Except LexError Token
  | .ok t => .ok (t.inFile file)
  | .error e => .error (e.inFile file)

end Lexer

/-- The answer about another file. -/
def Turn.inFile (file : FileId) (u : Turn) : Turn :=
  ⟨Lexer.replyInFile file u.reply, u.lexer.inFile file, u.events⟩

/-- The tokens that a mode shows are the same under another number. -/
theorem StreamMode.filter_map_inFile (mode : StreamMode) (file : FileId) (ts : List Token) :
    (ts.map (Token.inFile file)).filter mode.shows =
      (ts.filter mode.shows).map (Token.inFile file) := by
  rw [List.filter_map]
  rfl

namespace Lexer

@[simp] theorem stops_replyInFile (file : FileId) (reply : Except LexError Token) :
    stops (replyInFile file reply) = stops reply := by
  cases reply <;> rfl

/-! ## Reading -/

theorem produce_inFile (file : FileId) (l : Lexer) (lexeme : Lexeme) (r : Reading) (stop : Mark) :
    (l.inFile file).produce lexeme r stop = (l.produce lexeme r stop).map (Turn.inFile file) := by
  unfold produce
  have hcontext : (l.inFile file).context = l.context := rfl
  rw [hcontext]
  cases l.context.after lexeme.kind <;> rfl

theorem turn_inFile (file : FileId) (l : Lexer) (c : Char) (t : Text) :
    (l.inFile file).turn c t = (l.turn c t).map (Turn.inFile file) := by
  unfold turn
  have hsurroundings : (l.inFile file).surroundings = l.surroundings := rfl
  have hmark : (l.inFile file).mark = l.mark := rfl
  simp only [hsurroundings, hmark, bind, Except.bind]
  cases l.mark.advance (scan l.surroundings c t).reading.taken with
  | error fault => rfl
  | ok stop =>
    cases Checked.word (scan l.surroundings c t).indent with
    | error fault => rfl
    | ok indent =>
      cases (scan l.surroundings c t).result with
      | error cause => rfl
      | ok lexeme => exact produce_inFile file l lexeme _ stop

/-- **Under another number** a lexer gives the same answer, under that number. -/
theorem next_inFile (file : FileId) (l : Lexer) :
    (l.inFile file).next = l.next.map (Turn.inFile file) := by
  have hrest : (l.inFile file).rest = l.rest := rfl
  unfold next
  rw [hrest]
  cases l.rest with
  | nil => rfl
  | cons c t => exact turn_inFile file l c t

/-- So does a run. -/
theorem Run.inFile {l m : Lexer} {ts : List Token} (hrun : Run l ts m) (file : FileId) :
    Run (l.inFile file) (ts.map (Token.inFile file)) (m.inFile file) := by
  induction hrun with
  | nil l => exact .nil _
  | @cons l m u t ts hnext ht heof hrun ih =>
    have hreply : (u.inFile file).reply = .ok (t.inFile file) := by rw [Turn.inFile, ht]; rfl
    refine .cons ?_ hreply heof ih
    rw [next_inFile, hnext]
    rfl

/-! ## The answers of a run in a mode -/

/-- **The answers in a mode**, from the run that leads to the end of the input or an error: the
tokens of the run that the mode shows, and what the run leads to. -/
theorem Run.exists_turns {l m : Lexer} {ts : List Token} {u : Turn} (hrun : Run l ts m)
    (hnext : m.next = .ok u) (hstops : stops u.reply = true) (mode : StreamMode) :
    ∃ us, l.turns mode = .ok us ∧
      Turn.tokens us = u.reply.map (fun t => ts.filter mode.shows ++ [t]) ∧
      Turn.tokensBeforeError us = ts.filter mode.shows ++ u.reply.toOption.toList := by
  induction hrun with
  | nil l =>
    refine ⟨[u], turns_of_stops (nextShown_of_stops hnext hstops mode) hstops, ?_, ?_⟩
    · cases hreply : u.reply <;> simp [Turn.tokens, hreply, Except.map]
    · cases hreply : u.reply <;> simp [Turn.tokensBeforeError, hreply, Except.toOption]
  | @cons l m v t ts hv ht heof hrun ih =>
    obtain ⟨us, hus, htokens, hbefore⟩ := ih hnext
    cases hshows : mode.shows t with
    | true =>
      have hgo : stops v.reply = false := by rwa [ht]
      refine ⟨v :: us, ?_, ?_, ?_⟩
      · rw [turns_of_not_stops (nextShown_of_shown hv ht hshows) hgo, hus]
        rfl
      · simp only [Turn.tokens, ht, htokens, List.filter_cons_of_pos hshows]
        cases u.reply <;> rfl
      · simp only [Turn.tokensBeforeError, ht, hbefore, List.filter_cons_of_pos hshows,
          List.cons_append]
    | false =>
      rw [List.filter_cons_of_neg (by simp [hshows])]
      refine ⟨us.modifyHead (Turn.after v.events), ?_, ?_, ?_⟩
      · rw [turns_of_hidden hv ht hshows, hus]
        rfl
      · rw [Turn.tokens_modifyHead, htokens]
      · rw [Turn.tokensBeforeError_modifyHead, hbefore]

end Lexer

end Lexis
