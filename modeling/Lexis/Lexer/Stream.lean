import Lexis.Lexer.Basic

/-!
# Token streams

A stream shows the tokens of a lexer in one of two modes: all of them, or only those that a parser
sees. The end of the input and errors are shown in both.

* `Lexer.nextShown`: the next token that a mode shows; tokens that are not shown are passed over.
* `Lexer.turns`: the answers up to the end of the input or the first error.
* `Stream`: a lexer with a mode and an iteration of its own.
* `Lexer.nextShown_of_shown`, `Lexer.nextShown_of_hidden`: one step of the search.
-/

namespace Lexis

/-- Which tokens a stream shows. -/
inductive StreamMode where
  /-- Every token. -/
  | full
  /-- The visible tokens. -/
  | visible
  deriving DecidableEq, Repr

namespace StreamMode

/-- The name of the mode. -/
def display : StreamMode → String
  | .full => "Full"
  | .visible => "Visible"

/-- Whether a token is shown. -/
def shows (m : StreamMode) (t : Token) : Bool := m = .full || t.visible

theorem visible_of_not_shows (m : StreamMode) {t : Token} (h : ¬ m.shows t = true) :
    t.visible = false := by
  simp only [shows, Bool.or_eq_true, not_or] at h
  simpa using h.2

end StreamMode

/-- The turn with earlier events in front of its own. -/
def Turn.after (events : List Event) (u : Turn) : Turn := { u with events := events ++ u.events }

namespace Lexer

/-- A hidden token shortens the rest: the end of the input is visible. -/
theorem length_rest_next_lt_of_hidden {l : Lexer} {u : Turn} {t : Token} (h : l.next = .ok u)
    (ht : u.reply = .ok t) (hidden : t.visible = false) :
    u.lexer.rest.length < l.rest.length := by
  cases hrest : l.rest with
  | nil =>
    simp only [next, hrest, Except.ok.injEq] at h
    subst h
    obtain rfl := Except.ok.inj ht
    contradiction
  | cons c r =>
    simp only [next, hrest] at h
    obtain ⟨stop, -, -, hresult⟩ := turn_eq_ok h
    split at hresult
    · obtain ⟨_, -, -, hlexer⟩ := produce_eq_ok hresult
      rw [hlexer, List.length_cons]
      exact Nat.lt_succ_of_le (length_left_scan_le l.surroundings c r)
    · rw [hresult] at ht
      simp [refuse] at ht

/-- The next token that `mode` shows, or the error in its place. -/
def nextShown (mode : StreamMode) (l : Lexer) : Checked Turn :=
  match h : l.next with
  | .error f => .error f
  | .ok u =>
    match hr : u.reply with
    | .error _ => .ok u
    | .ok t =>
      if hs : mode.shows t = true then .ok u
      else
        have := length_rest_next_lt_of_hidden h hr (mode.visible_of_not_shows hs)
        (nextShown mode u.lexer).map (Turn.after u.events)
termination_by l.rest.length

theorem nextShown_of_shown {mode : StreamMode} {l : Lexer} {u : Turn} {t : Token}
    (h : l.next = .ok u) (ht : u.reply = .ok t) (hs : mode.shows t = true) :
    l.nextShown mode = .ok u := by
  rw [nextShown]
  split
  · simp_all
  · rename_i v hv
    obtain rfl : u = v := Except.ok.inj (h.symm.trans hv)
    split
    · rfl
    · rename_i t' ht'
      obtain rfl : t = t' := Except.ok.inj (ht.symm.trans ht')
      exact dif_pos hs

theorem nextShown_of_hidden {mode : StreamMode} {l : Lexer} {u : Turn} {t : Token}
    (h : l.next = .ok u) (ht : u.reply = .ok t) (hs : mode.shows t = false) :
    l.nextShown mode = (u.lexer.nextShown mode).map (Turn.after u.events) := by
  rw [nextShown]
  split
  · simp_all
  · rename_i v hv
    obtain rfl : u = v := Except.ok.inj (h.symm.trans hv)
    split
    · simp_all
    · rename_i t' ht'
      obtain rfl : t = t' := Except.ok.inj (ht.symm.trans ht')
      exact dif_neg (by simp [hs])

theorem nextShown_of_error {mode : StreamMode} {l : Lexer} {u : Turn} {e : LexError}
    (h : l.next = .ok u) (he : u.reply = .error e) : l.nextShown mode = .ok u := by
  rw [nextShown]
  split
  · simp_all
  · rename_i v hv
    obtain rfl : u = v := Except.ok.inj (h.symm.trans hv)
    split
    · rfl
    · simp_all

theorem nextShown_of_fault {mode : StreamMode} {l : Lexer} {f : Fault} (h : l.next = .error f) :
    l.nextShown mode = .error f := by
  rw [nextShown]
  split <;> simp_all

/-- A shown token other than the end of the input shortens the rest. -/
theorem length_rest_nextShown_lt {mode : StreamMode} {l : Lexer} {u : Turn}
    (h : l.nextShown mode = .ok u) (hs : stops u.reply = false) :
    u.lexer.rest.length < l.rest.length := by
  induction hn : l.rest.length using Nat.strongRecOn generalizing l u with
  | ind n ih =>
    subst hn
    cases hnext : l.next with
    | error f => simp [nextShown_of_fault hnext] at h
    | ok v =>
      cases hreply : v.reply with
      | error e =>
        obtain rfl := Except.ok.inj ((nextShown_of_error hnext hreply).symm.trans h)
        simp [stops, hreply] at hs
      | ok t =>
        cases hshow : mode.shows t with
        | true =>
          obtain rfl := Except.ok.inj ((nextShown_of_shown hnext hreply hshow).symm.trans h)
          exact length_rest_next_lt hnext hreply (by simpa [stops, hreply] using hs)
        | false =>
          rw [nextShown_of_hidden hnext hreply hshow] at h
          have hlt := length_rest_next_lt_of_hidden hnext hreply
            (mode.visible_of_not_shows (by simp [hshow]))
          cases hrec : v.lexer.nextShown mode with
          | error f => simp [hrec, Except.map] at h
          | ok w =>
            simp only [hrec, Except.map, Except.ok.injEq] at h
            subst h
            have hrest := ih _ hlt hrec hs rfl
            exact Nat.lt_trans hrest hlt

/-- The answers in a mode, up to and with the end of the input or the first error. -/
def turns (mode : StreamMode) (l : Lexer) : Checked (List Turn) :=
  match h : l.nextShown mode with
  | .error f => .error f
  | .ok u =>
    if hs : stops u.reply = true then .ok [u]
    else
      have := length_rest_nextShown_lt h (by simpa using hs)
      (turns mode u.lexer).map (u :: ·)
termination_by l.rest.length

end Lexer

/-- A lexer with a mode. -/
structure Stream where
  /-- The lexer that gives the tokens. -/
  lexer : Lexer
  /-- Which tokens are shown. -/
  mode : StreamMode
  /-- Whether the iteration over the stream has ended. -/
  done : Bool := false
  deriving DecidableEq, Repr

namespace Stream

/-- The next token that the stream shows, or the error in its place. -/
def next (s : Stream) : Checked (Except LexError Token × Stream) :=
  (s.lexer.nextShown s.mode).map fun u => (u.reply, { s with lexer := u.lexer })

/-- Passes over one character. -/
def skip (s : Stream) : Checked (Option Char × Stream) :=
  s.lexer.skip.map fun (c, lexer) => (c, { s with lexer })

/-- The next item of the iteration, nothing once it has ended. -/
def iterate (s : Stream) : Checked (Option (Except LexError Token) × Stream) :=
  if s.done then .ok (none, s)
  else s.next.map fun (reply, s) => (Lexer.item? reply, { s with done := Lexer.stops reply })

end Stream

end Lexis
