import Lexis.Proofs.Recovery
import Lexis.Proofs.View

/-!
# Feeds

A program that reads tokens holds a lexer or a stream around one, and may change between the two: a
lexer is wrapped in a stream of either mode, and a stream gives its lexer back. Whatever is done
with such a *feed*, its lexer is one to which requests for tokens and skipped characters lead, so
what is known of sessions holds of feeds.

* `Stream.call`: the calls of a lexer, made to a stream.
* `Feed.act`, `Feed.session`: one act on a feed, and several one after the other.
* `Lexer.Gives`: the spans that the lexers of a session give.
* `Feed.exists_act`, `Feed.exists_session`: one act and a whole session have an answer, leave a
  lexer of a session, and give spans of a session only.
* `gives_of_tokenize`, `Recovery.gives_of_steps`: so do the runs over a whole source.
* `Recovery.Reads.exists_next_of_mem`: the answer from which a step of a recovery comes.
-/

namespace Lexis

/-! ## Streams under calls -/

/-- A call to a stream: what it gives back and the stream afterwards. -/
def Stream.call (s : Stream) : Call → Checked (Call.Result × Stream)
  | .next => s.next.map fun (reply, t) => (.reply reply, t)
  | .iterate => s.iterate.map fun (item?, t) => (.item item?, t)
  | .skip => s.skip.map fun (char?, t) => (.skipped char?, t)

/-- A stream answers what its lexer answers behind tokens that the mode does not show. -/
theorem Stream.exists_passesHidden (s : Stream) :
    ∃ m, s.lexer.PassesHidden m ∧
      s.next = m.next.map fun u => (u.reply, { s with lexer := u.lexer }) := by
  obtain ⟨l, mode, done⟩ := s
  cases mode with
  | full =>
    refine ⟨l, .refl l, ?_⟩
    rw [Stream.next, Lexer.nextShown_full]
  | visible =>
    obtain ⟨m, hpasses, -, hnext⟩ := Stream.exists_next_eq l done
    exact ⟨m, hpasses, hnext⟩

/-! ## Spans of a session -/

namespace Lexer

variable {source : Text} {file : FileId} {l m : Lexer}

/-- Some lexer of a session on the source answers with this span. -/
def Gives (source : Text) (file : FileId) (span : Span) : Prop :=
  ∃ l u, Reachable source file l ∧ l.next = .ok u ∧ span = replySpan u.reply

theorem Reachable.next {u : Turn} (h : Reachable source file l) (hnext : l.next = .ok u) :
    Reachable source file u.lexer := by
  refine h.call (c := .next) (r := .reply u.reply) ?_
  rw [Lexer.call, hnext]
  rfl

theorem Reachable.skip {char? : Option Char} (h : Reachable source file l)
    (hskip : l.skip = .ok (char?, m)) : Reachable source file m := by
  refine h.call (c := .skip) (r := .skipped char?) ?_
  rw [Lexer.call, hskip]
  rfl

theorem PassesHidden.reachable (hpasses : l.PassesHidden m) (h : Reachable source file l) :
    Reachable source file m := by
  obtain ⟨ts, hrun, -⟩ := hpasses
  exact hrun.reachable h

/-- What a call gives back is a span of the session. -/
theorem Reachable.gives_of_call (h : Reachable source file l) {c : Call} {r : Call.Result}
    (hcall : l.call c = .ok (r, m)) {span : Span} (hspan : r.span? = some span) :
    Gives source file span := by
  cases serves_of_call hcall with
  | ended => contradiction
  | asked hnext hitem hreply hm => exact ⟨l, _, h, hnext, hreply span hspan⟩
  | skipped hskip => contradiction

/-- The tokens of a run have spans of the session. -/
theorem Run.gives {ts : List Token} (hrun : Run l ts m) (h : Reachable source file l) {t : Token}
    (ht : t ∈ ts) : Gives source file t.span := by
  induction hrun with
  | nil l => contradiction
  | @cons l m u s ts hnext hs heof hrun ih =>
    rcases List.mem_cons.mp ht with rfl | hmem
    · exact ⟨l, u, h, hnext, by rw [hs]; rfl⟩
    · exact ih (h.next hnext) hmem

end Lexer

/-! ## Feeds -/

/-- What a program reads tokens from. -/
inductive Feed where
  /-- A lexer. -/
  | lexer (l : Lexer)
  /-- A stream around a lexer. -/
  | stream (s : Stream)

/-- What a program does with a feed. -/
inductive Feed.Act where
  /-- A call to the lexer or the stream. -/
  | call (c : Call)
  /-- The lexer is wrapped in a new stream. -/
  | wrap (mode : StreamMode)
  /-- The stream is given up for its lexer. -/
  | unwrap
  deriving DecidableEq, Repr

namespace Feed

/-- The lexer that gives the tokens. -/
def inner : Feed → Lexer
  | .lexer l => l
  | .stream s => s.lexer

/-- One act: what it gives back, which is nothing unless it is a call, and the feed afterwards. -/
def act (f : Feed) : Act → Checked (Option Call.Result × Feed)
  | .call c =>
    match f with
    | .lexer l => (l.call c).map fun (r, l) => (some r, .lexer l)
    | .stream s => (s.call c).map fun (r, s) => (some r, .stream s)
  | .wrap mode => .ok (none, .stream ⟨f.inner, mode, false⟩)
  | .unwrap => .ok (none, .lexer f.inner)

/-- Acts one after the other: what the calls among them give back and the feed behind them. -/
def session (f : Feed) : List Act → Checked (List Call.Result × Feed)
  | [] => .ok ([], f)
  | a :: acts => do
    let (r?, g) ← f.act a
    let (rs, h) ← g.session acts
    return (r?.toList ++ rs, h)

theorem session_cons_of_ok {f g h : Feed} {a : Act} {acts : List Act} {r? : Option Call.Result}
    {rs : List Call.Result} (hact : f.act a = .ok (r?, g))
    (hsession : g.session acts = .ok (rs, h)) :
    f.session (a :: acts) = .ok (r?.toList ++ rs, h) := by
  simp [session, hact, hsession, bind, Except.bind, pure, Except.pure]

/-- What several acts give back comes from the first of them and the others. -/
theorem session_cons_eq_ok {f h : Feed} {a : Act} {acts : List Act} {rs : List Call.Result}
    (hsession : f.session (a :: acts) = .ok (rs, h)) :
    ∃ r? g rs', f.act a = .ok (r?, g) ∧ g.session acts = .ok (rs', h) ∧ rs = r?.toList ++ rs' := by
  cases hact : f.act a with
  | error e => simp [session, hact, bind, Except.bind] at hsession
  | ok p =>
    obtain ⟨r?, g⟩ := p
    cases hrest : g.session acts with
    | error e => simp [session, hact, hrest, bind, Except.bind] at hsession
    | ok q =>
      obtain ⟨rs', k⟩ := q
      rw [session_cons_of_ok hact hrest] at hsession
      obtain ⟨rfl, rfl⟩ := Prod.mk.inj (Except.ok.inj hsession)
      exact ⟨r?, g, rs', rfl, hrest, rfl⟩

end Feed

/-! ## What an act preserves -/

section

open Lexer

variable {source : Text} {file : FileId}

/-- A stream around a lexer of a session answers as a lexer of the session does, and is left with
one. -/
theorem Stream.exists_next {s : Stream} (h : Reachable source file s.lexer)
    (hsize : Text.byteSize source < 2 ^ 29) :
    ∃ u : Turn, s.next = .ok (u.reply, { s with lexer := u.lexer }) ∧
      Reachable source file u.lexer ∧ Gives source file (replySpan u.reply) := by
  obtain ⟨m, hpasses, heq⟩ := s.exists_passesHidden
  have hm := hpasses.reachable h
  obtain ⟨before, hstands⟩ := hm.stands
  obtain ⟨u, hnext⟩ := hstands.exists_next hsize
  refine ⟨u, ?_, hm.next hnext, ⟨m, u, hm, hnext, rfl⟩⟩
  rw [heq, hnext]
  rfl

/-- **A call to a stream has an answer** on a source of less than `2 ^ 29` bytes. -/
theorem Stream.exists_call {s : Stream} (h : Reachable source file s.lexer)
    (hsize : Text.byteSize source < 2 ^ 29) (c : Call) :
    ∃ r t, s.call c = .ok (r, t) ∧ Reachable source file t.lexer ∧
      ∀ span, r.span? = some span → Gives source file span := by
  cases c with
  | next =>
    obtain ⟨u, hnext, hreachable, hgives⟩ := Stream.exists_next h hsize
    refine ⟨.reply u.reply, { s with lexer := u.lexer }, ?_, hreachable, fun span hspan => ?_⟩
    · rw [Stream.call, hnext]
      rfl
    · obtain rfl := Option.some.inj hspan
      exact hgives
  | iterate =>
    by_cases hdone : s.done = true
    · refine ⟨.item none, s, ?_, h, fun span hspan => nomatch hspan⟩
      rw [Stream.call, Stream.iterate, if_pos hdone]
      rfl
    · obtain ⟨u, hnext, hreachable, hgives⟩ := Stream.exists_next h hsize
      refine ⟨.item (item? u.reply), ⟨u.lexer, s.mode, stops u.reply⟩, ?_, hreachable,
        fun span hspan => ?_⟩
      · rw [Stream.call, Stream.iterate, if_neg hdone, hnext]
        rfl
      · obtain ⟨answer, hanswer, rfl⟩ := Option.map_eq_some_iff.mp hspan
        rwa [← eq_of_item?_eq_some hanswer]
  | skip =>
    obtain ⟨r, m, hcall⟩ := h.exists_call hsize .skip
    obtain ⟨⟨char?, k⟩, hskip, heq⟩ := Checked.map_eq_ok_iff.mp hcall
    refine ⟨.skipped char?, { s with lexer := k }, ?_, h.skip hskip, ?_⟩
    · rw [Stream.call, Stream.skip, hskip]
      rfl
    · exact fun span hspan => nomatch hspan

namespace Feed

/-- **An act has an answer** on a source of less than `2 ^ 29` bytes, and leaves a lexer of a
session. -/
theorem exists_act {f : Feed} (h : Reachable source file f.inner)
    (hsize : Text.byteSize source < 2 ^ 29) (a : Act) :
    ∃ r? g, f.act a = .ok (r?, g) ∧ Reachable source file g.inner ∧
      ∀ r ∈ r?, ∀ span, r.span? = some span → Gives source file span := by
  cases a with
  | wrap mode => exact ⟨none, .stream ⟨f.inner, mode, false⟩, rfl, h, by simp⟩
  | unwrap => exact ⟨none, .lexer f.inner, rfl, h, by simp⟩
  | call c =>
    cases f with
    | lexer l =>
      obtain ⟨r, m, hcall⟩ := Reachable.exists_call (l := l) h hsize c
      refine ⟨some r, .lexer m, ?_, Reachable.call h hcall, ?_⟩
      · rw [act, hcall]
        rfl
      · rintro _ ⟨⟩ span hspan
        exact Reachable.gives_of_call h hcall hspan
    | stream s =>
      obtain ⟨r, t, hcall, hreachable, hgives⟩ := Stream.exists_call h hsize c
      refine ⟨some r, .stream t, ?_, hreachable, ?_⟩
      · rw [act, hcall]
        rfl
      · rintro _ ⟨⟩
        exact hgives

/-- **A session of acts runs to its end** on a source of less than `2 ^ 29` bytes. -/
theorem exists_session {f : Feed} (h : Reachable source file f.inner)
    (hsize : Text.byteSize source < 2 ^ 29) (acts : List Act) :
    ∃ rs g, f.session acts = .ok (rs, g) ∧ Reachable source file g.inner ∧
      ∀ r ∈ rs, ∀ span, r.span? = some span → Gives source file span := by
  induction acts generalizing f with
  | nil => exact ⟨[], f, rfl, h, by simp⟩
  | cons a acts ih =>
    obtain ⟨r?, g, hact, hreachable, hgives⟩ := exists_act h hsize a
    obtain ⟨rs, k, hsession, hreachable', hgives'⟩ := ih hreachable
    refine ⟨r?.toList ++ rs, k, session_cons_of_ok hact hsession, hreachable', ?_⟩
    intro r hr
    rcases List.mem_append.mp hr with hmem | hmem
    · exact hgives r (Option.mem_toList.mp hmem)
    · exact hgives' r hmem

end Feed

/-! ## Whole sources -/

/-- The spans of the outcome of a strict run. -/
def outcomeSpans : Except LexError (List Token) → List Span
  | .ok tokens => tokens.map (·.span)
  | .error e => [e.span]

/-- **A strict run over a source has an outcome** whose spans are those of a session. -/
theorem gives_of_tokenize (source : Text) (hsize : Text.byteSize source < 2 ^ 29) :
    ∃ result, tokenize source = .ok result ∧
      ∀ span ∈ outcomeSpans result, Gives source .unknown span := by
  have hstart : Reachable source .unknown (ofSource source) := .start
  obtain ⟨us, hus⟩ := (stands_ofSource source .unknown).exists_turns hsize
  obtain ⟨ts, m, u, hrun, hnext, -, htokens, -⟩ := exists_run_of_turns hus
  have hlast : Gives source .unknown (replySpan u.reply) :=
    ⟨m, u, hrun.reachable hstart, hnext, rfl⟩
  refine ⟨u.reply.map fun t => ts ++ [t], ?_, ?_⟩
  · rw [tokenize, tokenizeIn, hus, ← htokens]
    rfl
  · intro span hspan
    cases hreply : u.reply with
    | error e =>
      rw [hreply] at hspan hlast
      obtain rfl := List.mem_singleton.mp hspan
      exact hlast
    | ok last =>
      rw [hreply] at hspan hlast
      obtain ⟨t, ht, rfl⟩ := List.mem_map.mp hspan
      rcases List.mem_append.mp ht with hmem | hmem
      · exact hrun.gives hstart hmem
      · obtain rfl := List.mem_singleton.mp hmem
        exact hlast

/-- The visible tokens are among all of them. -/
theorem gives_of_tokenizeVisible (source : Text) (hsize : Text.byteSize source < 2 ^ 29) :
    ∃ result, tokenizeVisible source = .ok result ∧
      ∀ span ∈ outcomeSpans result, Gives source .unknown span := by
  obtain ⟨result, htokenize, hgives⟩ := gives_of_tokenize source hsize
  refine ⟨result.map (List.filter (·.visible)), ?_, ?_⟩
  · change ((ofSource source).turns .visible).map Turn.tokens = _
    rw [map_tokens_turns_visible]
    exact congrArg (Except.map _) htokenize
  · intro span hspan
    cases result with
    | error e => exact hgives span hspan
    | ok tokens =>
      obtain ⟨t, ht, rfl⟩ := List.mem_map.mp hspan
      exact hgives _ (List.mem_map_of_mem (List.mem_of_mem_filter ht))

namespace Recovery

/-- **Each step of a recovery comes from an answer of a session**: it is a token with the warning
that is due, or an error with the character passed over. -/
theorem Reads.exists_next_of_mem {l : Lexer} {ss : List Step} (hreads : Reads l ss)
    (h : Reachable source file l) {s : Step} (hs : s ∈ ss) :
    ∃ k u, Reachable source file k ∧ k.next = .ok u ∧
      ((∃ t, u.reply = .ok t ∧ s = .ofToken k u t) ∨
        ∃ e char?, u.reply = .error e ∧ s = .ofError u e char?) := by
  induction hreads with
  | @eof l u t hnext ht heof => exact ⟨l, u, h, hnext, .inl ⟨t, ht, List.mem_singleton.mp hs⟩⟩
  | @token l u t ss hnext ht heof hrest ih =>
    rcases List.mem_cons.mp hs with rfl | hmem
    · exact ⟨l, u, h, hnext, .inl ⟨t, ht, rfl⟩⟩
    · exact ih (h.next hnext) hmem
  | @error l m u e c ss hnext he hskip hrest ih =>
    rcases List.mem_cons.mp hs with rfl | hmem
    · exact ⟨l, u, h, hnext, .inr ⟨e, some c, he, rfl⟩⟩
    · exact ih (h.skip hskip) hmem

/-- The step of a token has a diagnostic if a closing bracket comes when no bracket is open. -/
theorem eq_warning_of_ofToken {l : Lexer} {u : Turn} {t : Token} {d : Diagnostic}
    (hd : (Step.ofToken l u t).diagnostic? = some d) :
    l.context.unmatchedClosers < u.lexer.context.unmatchedClosers ∧
      d = unmatchedCloserWarning t := by
  rw [Step.ofToken] at hd
  split at hd
  · rename_i hlt
    exact ⟨hlt, (Option.some.inj hd).symm⟩
  · contradiction

/-- **The steps of a recovery have spans of a session**, those of their tokens and those of their
diagnostics. -/
theorem gives_of_steps {l : Lexer} (h : Reachable source file l) {ss : List Step}
    (hsteps : steps l = .ok ss) :
    ∀ s ∈ ss, (∀ t ∈ s.token?, Gives source file t.span) ∧
      ∀ d ∈ s.diagnostic?, Gives source file d.span := by
  intro s hs
  obtain ⟨k, u, hk, hnext, hstep⟩ := (reads_of_steps hsteps).exists_next_of_mem h hs
  have hgives : Gives source file (replySpan u.reply) := ⟨k, u, hk, hnext, rfl⟩
  obtain ⟨t, ht, rfl⟩ | ⟨e, char?, he, rfl⟩ := hstep
  · rw [ht] at hgives
    refine ⟨?_, fun d hd => ?_⟩
    · rintro _ ⟨⟩
      exact hgives
    · obtain ⟨-, rfl⟩ := eq_warning_of_ofToken hd
      exact hgives
  · rw [he] at hgives
    refine ⟨by rintro _ ⟨⟩, ?_⟩
    rintro _ ⟨⟩
    exact hgives

end Recovery

end

end Lexis
