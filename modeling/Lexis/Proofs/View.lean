import Lexis.Proofs.Calls

/-!
# The visible view

A stream in visible mode is the full stream without its hidden tokens. Asked for a token it passes
over hidden ones, and what it gives and leaves is what the lexer gives and leaves when it is asked
as often by hand. So the visible tokens of a source are those of all its tokens that are visible.

* `Lexer.PassesHidden`: from one lexer to another by hidden tokens only.
* `Lexer.exists_passesHidden`: hidden tokens come to an end, at a visible token, an error or a
  fault.
* `Stream.exists_next_eq`: a stream in visible mode answers what the lexer answers there.
* `Lexer.turns_of_hidden`: a hidden token in front of the answers in a mode.
* `Lexer.map_tokens_turns_visible`: the tokens of a run in visible mode are the visible ones of the
  full run.
* `visible_view`: the two facts about a source and its sessions.
-/

namespace Lexis

namespace Lexer

/-! ## Passing over hidden tokens -/

/-- Asked again and again, the first lexer gives hidden tokens and becomes the second. -/
def PassesHidden (l m : Lexer) : Prop := ∃ ts, Run l ts m ∧ ∀ t ∈ ts, t.visible = false

/-- Whether a parser sees a reply: a visible token or an error. -/
def isSeen : Except LexError Token → Bool
  | .ok t => t.visible
  | .error _ => true

/-- The end of the input is visible, so a hidden token is another one. -/
theorem isEof_of_hidden {l : Lexer} {u : Turn} {t : Token} (hnext : l.next = .ok u)
    (ht : u.reply = .ok t) (hidden : t.visible = false) : t.isEof = false := by
  cases heof : t.isEof with
  | false => rfl
  | true =>
    obtain ⟨-, rfl⟩ := eq_finish_of_isEof hnext ht heof
    obtain rfl := Except.ok.inj ht
    contradiction

theorem PassesHidden.refl (l : Lexer) : l.PassesHidden l := ⟨[], .nil l, by simp⟩

theorem PassesHidden.cons {l m : Lexer} {u : Turn} {t : Token} (hnext : l.next = .ok u)
    (ht : u.reply = .ok t) (hidden : t.visible = false) (h : u.lexer.PassesHidden m) :
    l.PassesHidden m := by
  obtain ⟨ts, hrun, hall⟩ := h
  refine ⟨t :: ts, .cons hnext ht (isEof_of_hidden hnext ht hidden) hrun, fun s hs => ?_⟩
  rcases List.mem_cons.mp hs with rfl | hmem
  · exact hidden
  · exact hall s hmem

/-- **Hidden tokens come to an end**: behind them is a reply that a parser sees, or a fault. -/
theorem exists_passesHidden (l : Lexer) :
    ∃ m, l.PassesHidden m ∧ ∀ u, m.next = .ok u → isSeen u.reply = true := by
  induction hn : l.rest.length using Nat.strongRecOn generalizing l with
  | ind n ih =>
    subst hn
    cases hnext : l.next with
    | error f => exact ⟨l, .refl l, by simp [hnext]⟩
    | ok u =>
      cases hseen : isSeen u.reply with
      | true =>
        refine ⟨l, .refl l, fun v hv => ?_⟩
        obtain rfl := Except.ok.inj (hnext.symm.trans hv)
        exact hseen
      | false =>
        cases hreply : u.reply with
        | error e => simp [isSeen, hreply] at hseen
        | ok t =>
          have hidden : t.visible = false := by simpa [isSeen, hreply] using hseen
          have hlt := length_rest_next_lt_of_hidden hnext hreply hidden
          obtain ⟨m, hpasses, hm⟩ := ih _ hlt _ rfl
          exact ⟨m, hpasses.cons hnext hreply hidden, hm⟩

/-- A reply that a parser sees is shown in visible mode. -/
theorem nextShown_of_seen {m : Lexer} (h : ∀ u, m.next = .ok u → isSeen u.reply = true) :
    m.nextShown .visible = m.next := by
  cases hnext : m.next with
  | error f => exact nextShown_of_fault hnext
  | ok u =>
    cases hreply : u.reply with
    | error e => exact nextShown_of_error hnext hreply
    | ok t =>
      have hvisible : t.visible = true := by simpa [isSeen, hreply] using h u hnext
      exact nextShown_of_shown hnext hreply (by simp [StreamMode.shows, hvisible])

/-- A hidden token is passed over: only the events of the search differ. -/
theorem map_nextShown_of_hidden {α : Type} {l : Lexer} {u : Turn} {t : Token}
    (hnext : l.next = .ok u) (ht : u.reply = .ok t) (hidden : t.visible = false)
    (f : Except LexError Token → Lexer → α) :
    (l.nextShown .visible).map (fun v => f v.reply v.lexer) =
      (u.lexer.nextShown .visible).map (fun v => f v.reply v.lexer) := by
  rw [nextShown_of_hidden hnext ht (by simp [StreamMode.shows, hidden])]
  cases u.lexer.nextShown .visible <;> rfl

theorem PassesHidden.map_nextShown {α : Type} {l m : Lexer} (h : l.PassesHidden m)
    (f : Except LexError Token → Lexer → α) :
    (l.nextShown .visible).map (fun v => f v.reply v.lexer) =
      (m.nextShown .visible).map (fun v => f v.reply v.lexer) := by
  obtain ⟨ts, hrun, hall⟩ := h
  induction hrun with
  | nil l => rfl
  | cons hnext ht heof hrun ih =>
    rw [map_nextShown_of_hidden hnext ht (hall _ List.mem_cons_self)]
    exact ih fun s hs => hall s (List.mem_cons_of_mem _ hs)

end Lexer

/-- **A stream in visible mode answers what the lexer answers behind its hidden tokens**, and is
left with the same lexer. -/
theorem Stream.exists_next_eq (l : Lexer) (done : Bool) :
    ∃ m, l.PassesHidden m ∧ (∀ u, m.next = .ok u → Lexer.isSeen u.reply = true) ∧
      Stream.next ⟨l, .visible, done⟩ =
        m.next.map fun u => (u.reply, ⟨u.lexer, .visible, done⟩) := by
  obtain ⟨m, hpasses, hseen⟩ := l.exists_passesHidden
  refine ⟨m, hpasses, hseen, ?_⟩
  rw [Stream.next, hpasses.map_nextShown fun reply k => (reply, (⟨k, .visible, done⟩ : Stream)),
    Lexer.nextShown_of_seen hseen]

/-! ## The visible tokens of a source -/

/-- The events of the first answer have no part in the tokens, -/
theorem Turn.tokens_modifyHead (events : List Event) (us : List Turn) :
    tokens (us.modifyHead (Turn.after events)) = tokens us := by
  cases us <;> rfl

/-- nor in those in front of the first error. -/
theorem Turn.tokensBeforeError_modifyHead (events : List Event) (us : List Turn) :
    tokensBeforeError (us.modifyHead (Turn.after events)) = tokensBeforeError us := by
  cases us <;> rfl

namespace Lexer

/-- A hidden token in front leaves only its events to the answers behind it. -/
theorem turns_of_hidden {mode : StreamMode} {l : Lexer} {u : Turn} {t : Token}
    (hnext : l.next = .ok u) (ht : u.reply = .ok t) (hidden : mode.shows t = false) :
    l.turns mode = (u.lexer.turns mode).map (List.modifyHead (Turn.after u.events)) := by
  have hshown := nextShown_of_hidden hnext ht hidden
  cases hrest : u.lexer.nextShown mode with
  | error f =>
    rw [hrest] at hshown
    rw [turns_of_fault hshown, turns_of_fault hrest]
    rfl
  | ok v =>
    rw [hrest] at hshown
    cases hstops : stops v.reply with
    | true =>
      rw [turns_of_stops hshown hstops, turns_of_stops hrest hstops]
      rfl
    | false =>
      rw [turns_of_not_stops hshown hstops, turns_of_not_stops hrest hstops, Turn.after]
      cases v.lexer.turns mode <;> rfl

/-- A hidden token in front changes nothing of the tokens in visible mode. -/
theorem map_tokens_turns_of_hidden {l : Lexer} {u : Turn} {t : Token} (hnext : l.next = .ok u)
    (ht : u.reply = .ok t) (hidden : t.visible = false) :
    (l.turns .visible).map Turn.tokens = (u.lexer.turns .visible).map Turn.tokens := by
  rw [turns_of_hidden hnext ht (by simp [StreamMode.shows, hidden])]
  cases u.lexer.turns .visible with
  | error f => rfl
  | ok us => exact congrArg Except.ok (Turn.tokens_modifyHead _ us)

/-- **The tokens of a run in visible mode** are the visible ones of the full run, and its error and
its fault are the same. -/
theorem map_tokens_turns_visible (l : Lexer) :
    (l.turns .visible).map Turn.tokens =
      ((l.turns .full).map Turn.tokens).map (Except.map (List.filter (·.visible))) := by
  -- on what is left, as in the recursion of both runs
  induction hn : l.rest.length using Nat.strongRecOn generalizing l with
  | ind n ih =>
    subst hn
    cases hnext : l.next with
    | error f =>
      rw [turns_of_fault (nextShown_of_fault hnext), turns_of_fault (nextShown_of_fault hnext)]
      rfl
    | ok u =>
      have hfull := (nextShown_full l).trans hnext
      cases hreply : u.reply with
      | error e =>
        have hstops : stops u.reply = true := by rw [hreply]; rfl
        rw [turns_of_stops (nextShown_of_error hnext hreply) hstops, turns_of_stops hfull hstops]
        simp [Except.map, Turn.tokens, hreply]
      | ok t =>
        cases hvisible : t.visible with
        | true =>
          have hshown : l.nextShown .visible = .ok u :=
            nextShown_of_shown hnext hreply (by simp [StreamMode.shows, hvisible])
          cases hstops : stops u.reply with
          | true =>
            rw [turns_of_stops hshown hstops, turns_of_stops hfull hstops]
            simp [Except.map, Turn.tokens, hreply, hvisible]
          | false =>
            have heof : t.isEof = false := by simpa [stops, hreply] using hstops
            have hlt := length_rest_next_lt hnext hreply heof
            rw [turns_of_not_stops hshown hstops, turns_of_not_stops hfull hstops,
              Turn.map_tokens_cons hreply, Turn.map_tokens_cons hreply, ih _ hlt _ rfl]
            rcases (u.lexer.turns .full).map Turn.tokens with f | e | ts <;>
              simp [Except.map, hvisible]
        | false =>
          have heof := isEof_of_hidden hnext hreply hvisible
          have hstops : stops u.reply = false := by rw [hreply]; exact heof
          have hlt := length_rest_next_lt hnext hreply heof
          rw [map_tokens_turns_of_hidden hnext hreply hvisible, turns_of_not_stops hfull hstops,
            Turn.map_tokens_cons hreply, ih _ hlt _ rfl]
          rcases (u.lexer.turns .full).map Turn.tokens with f | e | ts <;>
            simp [Except.map, hvisible]

end Lexer

/-- **The visible view is the filtered full view.** The visible tokens of a source are all its
tokens without the hidden ones, with the same error or fault if there is one. In a session, a stream
in visible mode gives the first reply that a parser sees, at the lexer `m` to which requests for
tokens lead over hidden ones, and leaves the lexer that this last request leaves. -/
theorem visible_view (source : Text) :
    tokenizeVisible source = (tokenize source).map (Except.map (List.filter (·.visible))) ∧
      ∀ file l done, Lexer.Reachable source file l →
        ∃ m, l.PassesHidden m ∧ (∀ u, m.next = .ok u → Lexer.isSeen u.reply = true) ∧
          Stream.next ⟨l, .visible, done⟩ =
            m.next.map (fun u => (u.reply, ⟨u.lexer, .visible, done⟩)) ∧
          (Text.byteSize source < 2 ^ 29 → ∃ u, m.next = .ok u) := by
  refine ⟨Lexer.map_tokens_turns_visible _, fun file l done hreachable => ?_⟩
  obtain ⟨m, hpasses, hseen, hnext⟩ := Stream.exists_next_eq l done
  refine ⟨m, hpasses, hseen, hnext, fun hsize => ?_⟩
  obtain ⟨ts, hrun, -⟩ := hpasses
  obtain ⟨before, hstands⟩ := (hrun.reachable hreachable).stands
  exact hstands.exists_next hsize

/-- In brackets a newline and the comment behind it are passed over, up to the name; the character
that no rule takes is an error in either view. -/
theorem visible_view_in_brackets :
    tokenizeVisible ['(', '\n', '#', '\n', 'x', '$'] =
        (tokenize ['(', '\n', '#', '\n', 'x', '$']).map (Except.map (List.filter (·.visible))) ∧
      Text.byteSize ['(', '\n', '#', '\n', 'x', '$'] < 2 ^ 29 ∧
      ∃ l m u, Lexer.Reachable ['(', '\n', '#', '\n', 'x', '$'] ⟨3⟩ l ∧
        l.rest = ['\n', '#', '\n', 'x', '$'] ∧ l.PassesHidden m ∧ m.next = .ok u ∧
        Lexer.isSeen u.reply = true ∧ u.lexer.rest = ['$'] ∧
        Stream.next ⟨l, .visible, false⟩ = .ok (u.reply, ⟨u.lexer, .visible, false⟩) := by
  have hsize : Text.byteSize ['(', '\n', '#', '\n', 'x', '$'] < 2 ^ 29 := by decide
  have hcall : (Lexer.ofSource ['(', '\n', '#', '\n', 'x', '$'] ⟨3⟩).call .next =
      .ok (_, ⟨⟨3⟩, ['\n', '#', '\n', 'x', '$'], ⟨1, 1, 1⟩, ⟨1, false, false, 0⟩, 1, false,
        false⟩) := rfl
  have hreachable := Lexer.Reachable.start.call hcall
  obtain ⟨htokens, hstream⟩ := visible_view ['(', '\n', '#', '\n', 'x', '$']
  obtain ⟨m, hpasses, hseen, heq, hexists⟩ := hstream _ _ false hreachable
  obtain ⟨u, hnext⟩ := hexists hsize
  rw [hnext] at heq
  have hrest : (Stream.next ⟨⟨⟨3⟩, ['\n', '#', '\n', 'x', '$'], ⟨1, 1, 1⟩, ⟨1, false, false, 0⟩, 1,
      false, false⟩, .visible, false⟩).toOption.map (·.2.lexer.rest) = some ['$'] := by
    decide +kernel
  rw [heq] at hrest
  exact ⟨htokens, hsize, _, m, u, hreachable, rfl, hpasses, hnext, hseen u hnext,
    Option.some.inj hrest, heq⟩

end Lexis
