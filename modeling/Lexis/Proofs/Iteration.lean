import Lexis.Proofs.Feed

/-!
# Iterating over tokens

A lexer and a stream around one can be iterated over, and each keeps a flag of its own that says
whether its iteration has ended. The items are the tokens of the source without the end of the
input, or those in front of the first error and the error. Requests for tokens and skipped
characters in between go past the flag and do not reset it, so an iteration that has ended gives
nothing more and changes nothing.

* `Feed.ended`, `Feed.mode`: the flag and the mode of whatever is iterated over.
* `Feed.act_iterate`, `Feed.act_iterate_of_ended`: one call for an item.
* `Lexer.Run.session_iterate`: the items of a run, one after the other.
* `Items`: the items of a source in a mode.
* `Feed.ended_of_session`: calls do not reset the flag.
* `Iterates`: the iteration over a source. `iterates_of_byteSize_lt` says that a lexer and the
  streams around it iterate so over every short source.
-/

namespace Lexis

open Lexer

/-! ## One call for an item -/

/-- Nothing comes behind the end, and nothing changes. -/
theorem Lexer.iterate_of_fused {l : Lexer} (h : l.fused = true) : l.iterate = .ok (none, l) :=
  if_pos h

theorem Stream.iterate_of_done {s : Stream} (h : s.done = true) : s.iterate = .ok (none, s) :=
  if_pos h

namespace Feed

/-- Whether the iteration has ended. -/
def ended : Feed → Bool
  | .lexer l => l.fused
  | .stream s => s.done

/-- Which tokens are shown. -/
def mode : Feed → StreamMode
  | .lexer _ => .full
  | .stream s => s.mode

/-- The feed goes on with another lexer, and its iteration has ended or not. -/
def resume : Feed → Lexer → Bool → Feed
  | .lexer _, l, ended => .lexer { l with fused := ended }
  | .stream s, l, ended => .stream ⟨l, s.mode, ended⟩

@[simp] theorem ended_resume (f : Feed) (l : Lexer) (b : Bool) : (f.resume l b).ended = b := by
  cases f <;> rfl

@[simp] theorem mode_resume (f : Feed) (l : Lexer) (b : Bool) : (f.resume l b).mode = f.mode := by
  cases f <;> rfl

/-- A feed gives nothing behind the end, and nothing changes. -/
theorem act_iterate_of_ended {f : Feed} (h : f.ended = true) :
    f.act (.call .iterate) = .ok (some (.item none), f) := by
  cases f with
  | lexer l =>
    rw [act, Lexer.call, iterate_of_fused h]
    rfl
  | stream s =>
    rw [act, Stream.call, Stream.iterate_of_done h]
    rfl

/-- **Before the end the next token that is shown is the item.** -/
theorem act_iterate {f : Feed} (h : f.ended = false) :
    f.act (.call .iterate) = (f.inner.nextShown f.mode).map fun u =>
      (some (.item (item? u.reply)), f.resume u.lexer (stops u.reply)) := by
  cases f with
  | lexer l =>
    have hfused : ¬ l.fused = true := Bool.eq_false_iff.mp h
    rw [act, Lexer.call, Lexer.iterate, if_neg hfused, mode, inner, nextShown_full]
    cases l.next <;> rfl
  | stream s =>
    have hdone : ¬ s.done = true := Bool.eq_false_iff.mp h
    rw [act, Stream.call, Stream.iterate, if_neg hdone, Stream.next, mode, inner]
    cases s.lexer.nextShown s.mode <;> rfl

/-- A token that is not shown is passed over. -/
theorem act_iterate_of_hidden {f : Feed} (h : f.ended = false) {u : Turn} {t : Token}
    (hnext : f.inner.next = .ok u) (ht : u.reply = .ok t) (hidden : f.mode.shows t = false) :
    f.act (.call .iterate) = (f.resume u.lexer false).act (.call .iterate) := by
  rw [act_iterate h, act_iterate (ended_resume f u.lexer false), mode_resume,
    nextShown_of_hidden hnext ht hidden]
  cases f with
  | lexer l => contradiction
  | stream s =>
    change _ = (u.lexer.nextShown s.mode).map _
    rw [mode]
    cases u.lexer.nextShown s.mode <;> rfl

/-! ## Items one after the other -/

/-- The answers to `n` calls for items: the items as far as they go, and then nothing. -/
def answers (items : List (Except LexError Token)) (n : Nat) : List Call.Result :=
  (List.range n).map fun i => .item items[i]?

theorem answers_cons (item : Except LexError Token) (items : List (Except LexError Token))
    (n : Nat) : answers (item :: items) (n + 1) = .item (some item) :: answers items n := by
  simp [answers, List.range_succ_eq_map, Function.comp_def]

theorem answers_nil (n : Nat) : answers [] n = List.replicate n (.item none) := by
  simp [answers]

/-- After the end comes nothing, as often as an item is called for. -/
theorem session_of_ended {f : Feed} (h : f.ended = true) (n : Nat) :
    f.session (List.replicate n (.call .iterate)) = .ok (answers [] n, f) := by
  rw [answers_nil]
  induction n with
  | zero => rfl
  | succ n ih => exact session_cons_of_ok (act_iterate_of_ended h) ih

/-- An answer that ends the iteration is the last item, if it is one. -/
theorem session_of_stops {f : Feed} (h : f.ended = false) {u : Turn}
    (hshown : f.inner.nextShown f.mode = .ok u) (hstops : stops u.reply = true) (n : Nat) :
    ∃ g, f.session (List.replicate n (.call .iterate)) =
      .ok (answers (item? u.reply).toList n, g) := by
  cases n with
  | zero => exact ⟨f, rfl⟩
  | succ n =>
    have hact : f.act (.call .iterate) =
        .ok (some (.item (item? u.reply)), f.resume u.lexer true) := by
      rw [act_iterate h, hshown, ← hstops]
      rfl
    have hrest := session_of_ended (ended_resume f u.lexer true) n
    refine ⟨f.resume u.lexer true, (session_cons_of_ok hact hrest).trans ?_⟩
    cases item? u.reply with
    | none => rw [Option.toList_none, answers_nil, answers_nil]; rfl
    | some item =>
      change _ = Except.ok (answers [item] (n + 1), f.resume u.lexer true)
      rw [answers_cons]
      rfl

end Feed

namespace Lexer

/-- Asking for a token does not reset the iteration. -/
theorem fused_of_next {l : Lexer} {u : Turn} (h : l.next = .ok u) : u.lexer.fused = l.fused := by
  cases answers_of_next h <;> rfl

/-- The end of the input is shown in every mode. -/
theorem shows_of_isEof {l : Lexer} {u : Turn} {t : Token} (hnext : l.next = .ok u)
    (ht : u.reply = .ok t) (heof : t.isEof = true) (mode : StreamMode) : mode.shows t = true := by
  obtain ⟨-, rfl⟩ := eq_finish_of_isEof hnext ht heof
  obtain rfl := Except.ok.inj ht
  exact Bool.or_true _

/-- So is whatever ends an iteration. -/
theorem nextShown_of_stops {l : Lexer} {u : Turn} (hnext : l.next = .ok u)
    (hstops : stops u.reply = true) (mode : StreamMode) : l.nextShown mode = .ok u := by
  cases hreply : u.reply with
  | error e => exact nextShown_of_error hnext hreply
  | ok t =>
    have heof : t.isEof = true := by simpa [stops, hreply] using hstops
    exact nextShown_of_shown hnext hreply (shows_of_isEof hnext hreply heof mode)

end Lexer

/-- A feed that goes on goes on with the lexer that is left. -/
theorem Feed.inner_resume {f : Feed} (h : f.ended = false) {u : Turn}
    (hnext : f.inner.next = .ok u) : (f.resume u.lexer false).inner = u.lexer := by
  cases f with
  | lexer l =>
    have hfused : u.lexer.fused = false := (fused_of_next hnext).trans h
    rw [resume, inner, ← hfused]
  | stream s => rfl

/-- **The items of a run** are its tokens that are shown, and the error that ends it, if one
does. -/
theorem Lexer.Run.session_iterate {l m : Lexer} {ts : List Token} (hrun : Run l ts m) {u : Turn}
    (hnext : m.next = .ok u) (hstops : stops u.reply = true) {f : Feed} (hinner : f.inner = l)
    (hended : f.ended = false) (n : Nat) :
    ∃ g, f.session (List.replicate n (.call .iterate)) =
      .ok (Feed.answers ((ts.filter f.mode.shows).map .ok ++ (item? u.reply).toList) n, g) := by
  induction hrun generalizing f n with
  | nil l =>
    subst hinner
    exact Feed.session_of_stops hended (nextShown_of_stops hnext hstops f.mode) hstops n
  | @cons l m v t ts hv ht heof hrun ih =>
    subst hinner
    have hstep := ih hnext (Feed.inner_resume hended hv) (Feed.ended_resume f v.lexer false)
    rw [Feed.mode_resume] at hstep
    cases n with
    | zero => exact ⟨f, rfl⟩
    | succ n =>
      cases hshows : f.mode.shows t with
      | true =>
        have hact : f.act (.call .iterate) = .ok (some (.item (some (.ok t))),
            f.resume v.lexer false) := by
          rw [Feed.act_iterate hended, nextShown_of_shown hv ht hshows]
          simp [Except.map, ht, item?, stops, heof]
        obtain ⟨g, hg⟩ := hstep n
        refine ⟨g, (Feed.session_cons_of_ok hact hg).trans ?_⟩
        rw [List.filter_cons_of_pos hshows, List.map_cons, List.cons_append, Feed.answers_cons]
        rfl
      | false =>
        -- the first of the calls passes over the token and answers what it would behind it
        obtain ⟨g, hg⟩ := hstep (n + 1)
        refine ⟨g, ?_⟩
        rw [List.filter_cons_of_neg (by simp [hshows]), ← hg, List.replicate_succ, Feed.session,
          Feed.session, Feed.act_iterate_of_hidden hended hv ht hshows]

/-! ## The items of a source -/

/-- The items of a source in a mode. -/
inductive Items (source : Text) (mode : StreamMode) : List (Except LexError Token) → Prop
  /-- The tokens that the mode shows, without the end of the input. -/
  | tokens {ts : List Token} {last : Token}
      (htokens : tokenizeIn mode source = .ok (.ok (ts ++ [last]))) (hlast : last.isEof = true)
      (hts : ∀ t ∈ ts, t.isEof = false) : Items source mode (ts.map .ok)
  /-- The tokens that the mode shows of those in front of the error, and the error. -/
  | error {ts : List Token} {m : Lexer} {u : Turn} {e : LexError}
      (htokens : tokenize source = .ok (.error e)) (hrun : Run (.ofSource source) ts m)
      (hnext : m.next = .ok u) (he : u.reply = .error e) :
      Items source mode ((ts.filter mode.shows).map .ok ++ [.error e])

/-- In full every token is shown. -/
theorem filter_shows_full (ts : List Token) : ts.filter StreamMode.full.shows = ts :=
  List.filter_eq_self.mpr fun _ _ => rfl

/-- The tokens of a mode are those of all tokens that it shows. -/
theorem tokenizeIn_eq (mode : StreamMode) (source : Text) :
    tokenizeIn mode source = (tokenize source).map (Except.map (List.filter mode.shows)) := by
  cases mode with
  | full =>
    rw [tokenize]
    rcases tokenizeIn .full source with f | e | ts
    · rfl
    · rfl
    · simp [Except.map, filter_shows_full]
  | visible => exact (visible_view source).1

/-- No token of a run is the end of the input. -/
theorem Lexer.Run.isEof_eq_false {l m : Lexer} {ts : List Token} (hrun : Run l ts m) :
    ∀ t ∈ ts, t.isEof = false := by
  induction hrun with
  | nil l => simp
  | cons hnext ht heof hrun ih => exact List.forall_mem_cons.mpr ⟨heof, ih⟩

/-- **The items of a source** are the tokens of a run that are shown, and the error that ends the
run, if one does. -/
theorem Items.of_run {source : Text} {m : Lexer} {ts : List Token} {u : Turn}
    (hrun : Run (.ofSource source) ts m) (hnext : m.next = .ok u) (hstops : stops u.reply = true)
    (mode : StreamMode) :
    Items source mode ((ts.filter mode.shows).map .ok ++ (item? u.reply).toList) := by
  have htokens : tokenize source = .ok (u.reply.map fun t => ts ++ [t]) :=
    hrun.tokens_turns hnext hstops
  cases hreply : u.reply with
  | error e =>
    rw [hreply] at htokens
    exact .error htokens hrun hnext hreply
  | ok last =>
    have heof : last.isEof = true := by simpa [stops, hreply] using hstops
    have hshows := shows_of_isEof hnext hreply heof mode
    have hnone : item? (.ok last) = none := if_pos heof
    rw [hnone, Option.toList_none, List.append_nil]
    refine .tokens ?_ heof fun t ht => hrun.isEof_eq_false t (List.mem_of_mem_filter ht)
    rw [tokenizeIn_eq, htokens, hreply]
    simp [Except.map, hshows]

/-! ## After the end -/

namespace Feed

/-- An answer that is nothing or an error ends the iteration. -/
theorem exists_item_of_iterate {f g : Feed} {r? : Option Call.Result}
    (hact : f.act (.call .iterate) = .ok (r?, g)) :
    ∃ found, r? = some (.item found) ∧
      (found = none ∨ (∃ e, found = some (.error e)) → g.ended = true) := by
  cases h : f.ended with
  | true =>
    obtain ⟨rfl, rfl⟩ := Prod.mk.inj (Except.ok.inj ((act_iterate_of_ended h).symm.trans hact))
    exact ⟨none, rfl, fun _ => h⟩
  | false =>
    rw [act_iterate h] at hact
    obtain ⟨u, -, heq⟩ := Checked.map_eq_ok_iff.mp hact
    obtain ⟨rfl, rfl⟩ := Prod.mk.inj heq
    refine ⟨item? u.reply, rfl, fun hends => ?_⟩
    rw [ended_resume]
    cases hreply : u.reply with
    | error e => rfl
    | ok t =>
      cases heof : t.isEof with
      | true => exact heof
      | false => simp [hreply, item?, heof] at hends

end Feed

/-- A call does not reset the iteration over a lexer. -/
theorem Lexer.fused_of_call {l m : Lexer} (h : l.fused = true) {c : Call} {r : Call.Result}
    (hcall : l.call c = .ok (r, m)) : m.fused = true := by
  cases c with
  | next =>
    obtain ⟨u, hnext, heq⟩ := Checked.map_eq_ok_iff.mp hcall
    obtain ⟨-, rfl⟩ := Prod.mk.inj heq
    exact (fused_of_next hnext).trans h
  | iterate =>
    rw [Lexer.call, iterate_of_fused h] at hcall
    obtain ⟨-, rfl⟩ := Prod.mk.inj (Except.ok.inj hcall)
    exact h
  | skip =>
    obtain ⟨⟨char?, k⟩, hskip, heq⟩ := Checked.map_eq_ok_iff.mp hcall
    obtain ⟨-, rfl⟩ := Prod.mk.inj heq
    obtain ⟨-, -, rfl⟩ | ⟨d, mark, -, -, -, hk⟩ := skip_eq_ok hskip
    · exact h
    · rw [hk]
      exact h

/-- A call does not reset the iteration over a stream. -/
theorem Stream.done_of_call {s t : Stream} (h : s.done = true) {c : Call} {r : Call.Result}
    (hcall : s.call c = .ok (r, t)) : t.done = true := by
  cases c with
  | next =>
    obtain ⟨⟨reply, k⟩, hnext, heq⟩ := Checked.map_eq_ok_iff.mp hcall
    obtain ⟨-, rfl⟩ := Prod.mk.inj heq
    obtain ⟨u, -, hpair⟩ := Checked.map_eq_ok_iff.mp hnext
    obtain ⟨-, rfl⟩ := Prod.mk.inj hpair
    exact h
  | iterate =>
    rw [Stream.call, Stream.iterate_of_done h] at hcall
    obtain ⟨-, rfl⟩ := Prod.mk.inj (Except.ok.inj hcall)
    exact h
  | skip =>
    obtain ⟨⟨char?, k⟩, hskip, heq⟩ := Checked.map_eq_ok_iff.mp hcall
    obtain ⟨-, rfl⟩ := Prod.mk.inj heq
    obtain ⟨p, -, hpair⟩ := Checked.map_eq_ok_iff.mp hskip
    obtain ⟨-, rfl⟩ := Prod.mk.inj hpair
    exact h

namespace Feed

/-- A call does not reset the iteration. -/
theorem ended_of_act {f g : Feed} (h : f.ended = true) {c : Call} {r? : Option Call.Result}
    (hact : f.act (.call c) = .ok (r?, g)) : g.ended = true := by
  cases f with
  | lexer l =>
    obtain ⟨⟨r, m⟩, hcall, heq⟩ := Checked.map_eq_ok_iff.mp hact
    obtain ⟨-, rfl⟩ := Prod.mk.inj heq
    exact fused_of_call h hcall
  | stream s =>
    obtain ⟨⟨r, t⟩, hcall, heq⟩ := Checked.map_eq_ok_iff.mp hact
    obtain ⟨-, rfl⟩ := Prod.mk.inj heq
    exact Stream.done_of_call h hcall

/-- **Calls do not reset the iteration**, whatever they are. -/
theorem ended_of_session {f g : Feed} (h : f.ended = true) {cs : List Call} {rs : List Call.Result}
    (hsession : f.session (cs.map .call) = .ok (rs, g)) : g.ended = true := by
  induction cs generalizing f rs with
  | nil =>
    obtain ⟨-, rfl⟩ := Prod.mk.inj (Except.ok.inj hsession)
    exact h
  | cons c cs ih =>
    obtain ⟨r?, k, rs', hact, hrest, -⟩ := session_cons_eq_ok hsession
    exact ih (ended_of_act h hact) hrest

end Feed

/-! ## The iteration over a source -/

/-- How an iteration goes that starts with the source. -/
structure Iterates (source : Text) (f : Feed) : Prop where
  /-- Calls for items alone are answered by the items of the source in their order, and by nothing
  behind them. -/
  items : ∃ items, Items source f.mode items ∧
    ∀ n, ∃ g, f.session (List.replicate n (.call .iterate)) = .ok (Feed.answers items n, g)
  /-- Whatever was called before, once nothing or an error has been the answer to a call for an item
  nothing is the answer to every later one, whatever is called in between, and it changes
  nothing. -/
  fused : ∀ before between : List Call, ∃ rs g found h rs' k,
    f.session (before.map .call) = .ok (rs, g) ∧
      g.act (.call .iterate) = .ok (some (.item found), h) ∧
      h.session (between.map .call) = .ok (rs', k) ∧
      (found = none ∨ (∃ e, found = some (.error e)) →
        k.act (.call .iterate) = .ok (some (.item none), k))

/-- A feed that starts with the source: a lexer, or a stream around one. -/
inductive Fresh (source : Text) : Feed → Prop
  | lexer : Fresh source (.lexer (.ofSource source))
  | stream (mode : StreamMode) : Fresh source (.stream ⟨.ofSource source, mode, false⟩)

/-- **A lexer and the streams around it iterate over every source** of less than `2 ^ 29` bytes. -/
theorem iterates_of_byteSize_lt {source : Text} (hsize : Text.byteSize source < 2 ^ 29) {f : Feed}
    (hf : Fresh source f) : Iterates source f := by
  have hinner : f.inner = .ofSource source := by cases hf <;> rfl
  have hended : f.ended = false := by cases hf <;> rfl
  refine ⟨?_, fun before between => ?_⟩
  · obtain ⟨us, hus⟩ := (stands_ofSource source .unknown).exists_turns hsize
    obtain ⟨ts, m, u, hrun, hnext, hstops, -⟩ := exists_run_of_turns hus
    exact ⟨_, .of_run hrun hnext hstops f.mode, hrun.session_iterate hnext hstops hinner hended⟩
  · have hreachable : Reachable source .unknown f.inner := by
      rw [hinner]
      exact .start
    obtain ⟨rs, g, hsession, hg, -⟩ := Feed.exists_session hreachable hsize (before.map .call)
    obtain ⟨r?, h, hact, hh, -⟩ := Feed.exists_act hg hsize (.call .iterate)
    obtain ⟨rs', k, hsession', -⟩ := Feed.exists_session hh hsize (between.map .call)
    obtain ⟨found, rfl, hends⟩ := Feed.exists_item_of_iterate hact
    exact ⟨rs, g, found, h, rs', k, hsession, hact, hsession', fun hfound =>
      Feed.act_iterate_of_ended (Feed.ended_of_session (hends hfound) hsession')⟩

/-- A newline in brackets is no item, and the character that no rule takes is the last one: once it
is passed over there is a name to ask for, but no item. -/
theorem iterates_of_byteSize_lt_in_brackets :
    Text.byteSize ['(', '\n', 'x', '$', 'y'] < 2 ^ 29 ∧
      ∃ f, Fresh ['(', '\n', 'x', '$', 'y'] f ∧ f.mode = .visible ∧
        Iterates ['(', '\n', 'x', '$', 'y'] f ∧
        (f.session ([.iterate, .iterate, .iterate, .skip, .next, .iterate].map .call)).toOption.map
            (fun (rs, _) => rs.map fun r => r.span?.map (·.start)) =
          some [some 0, some 2, some 3, none, some 4, none] := by
  have hsize : Text.byteSize ['(', '\n', 'x', '$', 'y'] < 2 ^ 29 := by decide
  refine ⟨hsize, _, .stream .visible, rfl, iterates_of_byteSize_lt hsize (.stream .visible), ?_⟩
  decide +kernel

end Lexis
