import Lexis.Proofs.LineEnding
import Lexis.Proofs.Session

/-!
# The grammar of string literals

Between its quotes a string literal is a sequence of items: a backslash with the character behind
it, or another character by itself. On one line the quote and the line feed are no items. Between
triple quotes every character may be one, and the literal ends at the first item that the closing
quotes stand in front of. There is one way at most to read a text like this, and the rule for
string literals reads it so.

* `Quotation.IsItem`, `Quotation.Reads`: items, and how they are read from a text.
* `Quotation.IsBody`: the body of a literal.
* `Quotation.Ends`: where no more items can be read, and why.
* `Quotation.Reads.unique`: items that are read up to an end are unique.
* `Quotation.exists_literal_eq`: the rule reads items up to an end.
* `Lexer.ReadsLiteral`: what a lexer answers in front of a literal.
  `Lexer.readsLiteral_of_reachable` says that the lexers of a session answer so.
-/

namespace Lexis

open Rule

namespace Quotation

/-! ## The grammar -/

/-- The quotes that open and close a literal. -/
def delimiter (q : Char) (triple : Bool) : Text := if triple then [q, q, q] else [q]

/-- An item: a backslash and any character, or one character other than a backslash, which on one
line is neither the quote nor a line feed. -/
def IsItem (q : Char) (triple : Bool) (w : Text) : Prop :=
  (∃ c, w = ['\\', c]) ∨ ∃ c, w = [c] ∧ c ≠ '\\' ∧ (triple = false → c ≠ q ∧ c ≠ '\n')

/-- The items can be read in front of `rest`: between triple quotes, the closing ones stand in front
of none of them. -/
def Items (q : Char) (triple : Bool) (rest : Text) : List Text → Prop
  | [] => True
  | w :: items => IsItem q triple w ∧
      (triple = true → ¬ delimiter q triple <+: (w :: items).flatten ++ rest) ∧
      Items q triple rest items

/-- From `text` the items are read, and `rest` is left. -/
structure Reads (q : Char) (triple : Bool) (text : Text) (items : List Text) (rest : Text) :
    Prop where
  eq : text = items.flatten ++ rest
  items : Items q triple rest items

/-- The text goes on with the body of a literal and its closing quotes. -/
def IsBody (q : Char) (triple : Bool) (text body : Text) : Prop :=
  ∃ items rest, Reads q triple text items rest ∧ delimiter q triple <+: rest ∧
    body = items.flatten

/-- No more items are read in front of `rest`, which is the end of a literal of this kind. Of `rest`
the literal takes `n` characters. -/
inductive Ends (q : Char) (triple : Bool) : (rest : Text) → Ending → (n : Nat) → Prop
  /-- The closing quotes. -/
  | closed (behind : Text) :
      Ends q triple (delimiter q triple ++ behind) .closed (delimiter q triple).length
  /-- A backslash at the end of the text. -/
  | escape : Ends q triple ['\\'] .escape 1
  /-- The end of the text. -/
  | eof : Ends q triple [] .unclosed 0
  /-- A line feed that is in no item. -/
  | feed (hline : triple = false) (behind : Text) : Ends q triple ('\n' :: behind) .unclosed 0

/-! ## Reading is unique -/

variable {q : Char} {triple : Bool} {text rest rest' : Text} {items items' : List Text}

/-- Only one item can stand in front of a text: its first character says which. -/
theorem IsItem.unique {w w' u u' : Text} (h : IsItem q triple w) (h' : IsItem q triple w')
    (heq : w ++ u = w' ++ u') : w = w' ∧ u = u' := by
  rcases h with ⟨c, rfl⟩ | ⟨c, rfl, hc, -⟩
  · rcases h' with ⟨d, rfl⟩ | ⟨d, rfl, hd, -⟩
    · exact List.append_inj heq rfl
    · exact absurd (List.cons.inj heq).1.symm hd
  · rcases h' with ⟨d, rfl⟩ | ⟨d, rfl, hd, -⟩
    · exact absurd (List.cons.inj heq).1 hc
    · exact List.append_inj heq rfl

theorem delimiter_eq_cons (q : Char) (triple : Bool) : ∃ ds, delimiter q triple = q :: ds := by
  cases triple with
  | false => exact ⟨[], rfl⟩
  | true => exact ⟨[q, q], rfl⟩

/-- The form that an error names is the one with these quotes. -/
theorem toList_delimiter_ofQuote (hq : isQuote q = true) (triple : Bool) :
    (QuoteForm.ofQuote q triple).delimiter.toList = delimiter q triple := by
  have hcases : q = '\'' ∨ q = '"' := by simpa [isQuote] using hq
  rcases hcases with rfl | rfl <;> cases triple <;> decide

/-- At an end there is no item. -/
theorem Ends.ne_append {e : Ending} {n : Nat} (h : Ends q triple rest e n) (hq : isQuote q = true)
    {w u : Text} (hw : IsItem q triple w)
    (hopen : triple = true → ¬ delimiter q triple <+: w ++ u) : rest ≠ w ++ u := by
  have hslash : q ≠ '\\' := ne_of_class hq (by decide)
  intro heq
  cases h with
  | closed behind =>
    cases triple with
    | true => exact hopen rfl ⟨behind, heq⟩
    | false =>
      rcases hw with ⟨c, rfl⟩ | ⟨c, rfl, -, hc⟩
      · exact hslash (List.cons.inj heq).1
      · exact (hc rfl).1 (List.cons.inj heq).1.symm
  | escape =>
    rcases hw with ⟨c, rfl⟩ | ⟨c, rfl, hc, -⟩
    · exact absurd (congrArg List.length heq) (by simp)
    · exact hc (List.cons.inj heq).1.symm
  | eof =>
    rcases hw with ⟨c, rfl⟩ | ⟨c, rfl, -⟩
    · contradiction
    · contradiction
  | feed hline behind =>
    rcases hw with ⟨c, rfl⟩ | ⟨c, rfl, -, hc⟩
    · exact absurd (List.cons.inj heq).1 (by decide)
    · exact (hc hline).2 (List.cons.inj heq).1.symm

/-- **Items are read in one way only**, up to an end. -/
theorem Reads.unique {e e' : Ending} {n n' : Nat} (hq : isQuote q = true)
    (h : Reads q triple text items rest) (hend : Ends q triple rest e n)
    (h' : Reads q triple text items' rest') (hend' : Ends q triple rest' e' n') :
    items = items' ∧ rest = rest' := by
  -- Where one reading is at its end, so is the other: no item stands there.
  induction items generalizing text items' with
  | nil =>
    cases items' with
    | nil => exact ⟨rfl, h.eq.symm.trans h'.eq⟩
    | cons w items' =>
      obtain ⟨hw, hopen, -⟩ := h'.items
      have heq : rest = w ++ (items'.flatten ++ rest') := by
        simpa using h.eq.symm.trans h'.eq
      exact absurd heq (hend.ne_append hq hw (by simpa using hopen))
  | cons v items ih =>
    obtain ⟨hv, hopen, hitems⟩ := h.items
    cases items' with
    | nil =>
      have heq : rest' = v ++ (items.flatten ++ rest) := by
        simpa using h'.eq.symm.trans h.eq
      exact absurd heq (hend'.ne_append hq hv (by simpa using hopen))
    | cons w items' =>
      obtain ⟨hw, -, hitems'⟩ := h'.items
      have heq : v ++ (items.flatten ++ rest) = w ++ (items'.flatten ++ rest') := by
        simpa using h.eq.symm.trans h'.eq
      obtain ⟨rfl, htail⟩ := hv.unique hw heq
      obtain ⟨rfl, rfl⟩ := ih ⟨rfl, hitems⟩ ⟨htail, hitems'⟩
      exact ⟨rfl, rfl⟩

/-- The closing quotes are no other end. -/
theorem Ends.eq_closed {e : Ending} {n : Nat} (hq : isQuote q = true)
    (h : Ends q triple rest e n) (hclosed : delimiter q triple <+: rest) : e = .closed := by
  obtain ⟨ds, hds⟩ := delimiter_eq_cons q triple
  rw [hds] at hclosed
  cases h with
  | closed behind => rfl
  | escape =>
    have hslash : q ≠ '\\' := ne_of_class hq (by decide)
    exact absurd (List.cons_prefix_cons.mp hclosed).1 hslash
  | eof => exact absurd (List.prefix_nil.mp hclosed) (by simp)
  | feed hline behind =>
    have hfeed : q ≠ '\n' := ne_of_class hq (by decide)
    exact absurd (List.cons_prefix_cons.mp hclosed).1 hfeed

/-- An end that is neither the closing quotes nor a backslash. -/
theorem Ends.of_unclosed {n : Nat} (h : Ends q triple rest .unclosed n) :
    n = 0 ∧ (rest = [] ∨ triple = false ∧ ∃ behind, rest = '\n' :: behind) := by
  cases h with
  | eof => exact ⟨rfl, .inl rfl⟩
  | feed hline behind => exact ⟨rfl, .inr ⟨hline, behind, rfl⟩⟩

/-- There is a body exactly if reading ends with the closing quotes. -/
theorem Reads.isBody_iff {e : Ending} {n : Nat} {body : Text} (hq : isQuote q = true)
    (h : Reads q triple text items rest) (hend : Ends q triple rest e n) :
    IsBody q triple text body ↔ e = .closed ∧ body = items.flatten := by
  constructor
  · rintro ⟨items', _, h', ⟨behind, rfl⟩, rfl⟩
    obtain ⟨rfl, rfl⟩ := h.unique hq hend h' (.closed behind)
    exact ⟨hend.eq_closed hq ⟨behind, rfl⟩, rfl⟩
  · rintro ⟨rfl, rfl⟩
    cases hend with
    | closed behind => exact ⟨items, _, h, ⟨behind, rfl⟩, rfl⟩

/-- A text has one body at most. -/
theorem IsBody.unique {body body' : Text} (hq : isQuote q = true)
    (h : IsBody q triple text body) (h' : IsBody q triple text body') : body = body' := by
  obtain ⟨items, _, hreads, ⟨behind, rfl⟩, rfl⟩ := h
  exact ((hreads.isBody_iff hq (.closed behind)).mp h').2.symm

/-! ## The rule reads items -/

/-- One more item in front. -/
theorem Reads.cons {w : Text} (h : Reads q triple text items rest) (hw : IsItem q triple w)
    (hopen : triple = true → ¬ delimiter q triple <+: w ++ text) :
    Reads q triple (w ++ text) (w :: items) rest := by
  obtain ⟨rfl, hitems⟩ := h
  refine ⟨by simp, hw, ?_, hitems⟩
  simpa using hopen

/-- What a body counts, given the `n` characters counted before. -/
def BodyReads (q : Char) (triple : Bool) (n : Nat) (text : Text) (body : Body) : Prop :=
  ∃ items rest k, Reads q triple text items rest ∧ Ends q triple rest body.ending k ∧
    body.length = n + items.flatten.length + k

theorem BodyReads.cons {n : Nat} {w : Text} {body : Body}
    (h : BodyReads q triple (n + w.length) text body) (hw : IsItem q triple w)
    (hopen : triple = true → ¬ delimiter q triple <+: w ++ text) :
    BodyReads q triple n (w ++ text) body := by
  obtain ⟨items, rest, k, hreads, hend, hlength⟩ := h
  refine ⟨w :: items, rest, k, hreads.cons hw hopen, hend, ?_⟩
  rw [hlength, List.flatten_cons, List.length_append]
  omega

theorem BodyReads.of_ends {n k : Nat} {e : Ending} (h : Ends q triple rest e k) :
    BodyReads q triple n rest ⟨n + k, e⟩ :=
  ⟨[], rest, k, ⟨rfl, trivial⟩, h, rfl⟩

theorem bodyReads_lineBody (q : Char) (n : Nat) (t : Text) :
    BodyReads q false n t (lineBody q n t) := by
  fun_induction lineBody q n t with
  | case1 n => exact .of_ends .eof
  | case2 n => exact .of_ends .escape
  | case3 n d t ih => exact ih.cons (w := ['\\', d]) (.inl ⟨d, rfl⟩) (by simp)
  | case4 n t => exact .of_ends (.feed rfl t)
  | case5 n t hend hnext hfeed => exact .of_ends (.closed t)
  | case6 n c t hend hnext hfeed hquote ih =>
    exact ih.cons (w := [c])
      (.inr ⟨c, rfl, ne_backslash hend hnext, fun _ => ⟨hquote, hfeed⟩⟩) (by simp)

theorem bodyReads_tripleBody (hq : isQuote q = true) (n : Nat) (t : Text) :
    BodyReads q true n t (tripleBody q n t) := by
  have hslash : q ≠ '\\' := ne_of_class hq (by decide)
  fun_induction tripleBody q n t with
  | case1 n => exact .of_ends .eof
  | case2 n => exact .of_ends .escape
  | case3 n d t ih =>
    refine ih.cons (w := ['\\', d]) (.inl ⟨d, rfl⟩) ?_
    intro _ hprefix
    exact hslash (List.cons_prefix_cons.mp hprefix).1
  | case4 n c t hend hnext htriple =>
    obtain ⟨behind, hbehind⟩ := List.isPrefixOf_iff_prefix.mp htriple
    rw [← hbehind]
    exact .of_ends (.closed behind)
  | case5 n c t hend hnext htriple ih =>
    refine ih.cons (w := [c]) (.inr ⟨c, rfl, ne_backslash hend hnext, by simp⟩) ?_
    intro _ hprefix
    exact htriple (List.isPrefixOf_iff_prefix.mpr hprefix)

theorem exists_literalBody_eq {body : Text → Body} (h : BodyReads q triple 0 text (body text))
    (form : QuoteForm) (taken : Text) :
    ∃ items rest e n, Reads q triple text items rest ∧ Ends q triple rest e n ∧
      literalBody form body ⟨taken, text⟩ =
        closeLiteral form ⟨taken ++ items.flatten ++ rest.take n, rest.drop n⟩ e := by
  obtain ⟨items, rest, n, hreads, hend, hlength⟩ := h
  refine ⟨items, rest, _, n, hreads, hend, ?_⟩
  have hskip : (Reading.mk taken text).skip (body text).length =
      ⟨taken ++ items.flatten ++ rest.take n, rest.drop n⟩ := by
    rw [hlength, hreads.eq, Nat.zero_add, Reading.skip]
    simp [List.take_append, List.drop_append]
  rw [literalBody, hskip]

/-- The text behind the opening quotes. -/
theorem delimiter_append_drop (q : Char) (more : Text) :
    delimiter q (startsTriple q (q :: more)) ++
      (q :: more).drop (delimiter q (startsTriple q (q :: more))).length = q :: more := by
  cases htriple : startsTriple q (q :: more) with
  | false => rfl
  | true =>
    obtain ⟨v, hv⟩ := List.isPrefixOf_iff_prefix.mp htriple
    rw [← hv]
    rfl

/-- **The rule reads items up to an end** and takes what the end is. -/
theorem exists_literal_eq (hq : isQuote q = true) {triple : Bool} (letters text : Text)
    (htriple : startsTriple q (delimiter q triple ++ text) = triple) :
    ∃ items rest e n, Reads q triple text items rest ∧ Ends q triple rest e n ∧
      literal ⟨letters, delimiter q triple ++ text⟩ = closeLiteral (.ofQuote q triple)
        ⟨letters ++ delimiter q triple ++ items.flatten ++ rest.take n, rest.drop n⟩ e := by
  cases triple with
  | true =>
    rw [show delimiter q true ++ text = q :: q :: q :: text from rfl, literal_of_triple hq]
    exact exists_literalBody_eq (bodyReads_tripleBody hq 0 text) _ _
  | false =>
    have hopen : startsTriple q (q :: text) = false := htriple
    rw [show delimiter q false ++ text = q :: text from rfl, literal_of_line hq letters hopen]
    exact exists_literalBody_eq (bodyReads_lineBody q 0 text) _ _

end Quotation

/-! ## Sessions -/

namespace Lexer

open Quotation

/-- The error of a literal that is not closed: at the end of the source if the last character is a
backslash that items are read up to, and if not, at the line feed or the end of the source that they
are read up to. -/
structure FailsAs (source : Text) (q : Char) (triple : Bool) (text : Text) (e : LexError) :
    Prop where
  escape : (∃ items, Reads q triple text items ['\\']) →
    e.cause = .unterminatedEscape ∧ e.span.stop = Text.byteSize source
  other : (¬ ∃ items, Reads q triple text items ['\\']) → ∃ form items rest,
    e.cause = .unterminatedString form ∧ form.delimiter.toList = delimiter q triple ∧
    Reads q triple text items rest ∧ (rest = [] ∨ triple = false ∧ ∃ r, rest = '\n' :: r) ∧
    e.span.stop + Text.byteSize rest = Text.byteSize source

/-- What a lexer answers in front of a literal with the given letters and quotes, behind which the
source goes on with `text`. -/
structure ReadsLiteral (source : Text) (l : Lexer) (u : Turn) (letters : Text) (q : Char)
    (triple : Bool) (text : Text) : Prop where
  /-- The text ahead of the lexer. -/
  rest_eq : l.rest = letters ++ delimiter q triple ++ text
  /-- The lexer gives a string literal exactly if there is a body, and takes this. -/
  closed : ∀ body, (∃ t, u.reply = .ok t ∧ t.kind = .literal .string ∧ t.visible = true ∧
      t.text = letters ++ delimiter q triple ++ body ++ delimiter q triple ∧
      l.rest = t.text ++ u.lexer.rest) ↔ IsBody q triple text body
  /-- There is one body at most. -/
  unique : ∀ body body', IsBody q triple text body → IsBody q triple text body' → body = body'
  /-- Otherwise it fails. -/
  unclosed : (∀ body, ¬ IsBody q triple text body) → ∃ e, u.reply = .error e ∧
    FailsAs source q triple text e

/-- The failure of a rule ends in front of what the rule has not read. -/
theorem Stands.exists_error {source before : Text} {l : Lexer} {u : Turn} {c : Char} {t : Text}
    {cause : Cause} {r : Reading} (h : l.Stands source before) (hrest : l.rest = c :: t)
    (hscan : scan l.surroundings c t = .reject cause r) (hnext : l.next = .ok u) :
    ∃ e, u.reply = .error e ∧ e.cause = cause ∧
      e.span.stop + Text.byteSize r.left = Text.byteSize source := by
  obtain ⟨e, stop, hreply, hcause, hstop, hspan⟩ :=
    exists_error_of_scan hrest hnext (by rw [hscan]; rfl)
  refine ⟨e, hreply, hcause, ?_⟩
  have hsource := h.scan_eq hrest
  rw [hscan] at hstop hsource
  rw [hspan, ← hsource, Text.byteSize_append]
  exact congrArg (· + Text.byteSize r.left) (h.offset_stop hstop)

/-- The rule that a lexer follows in front of a literal. -/
theorem exists_scan_eq {l : Lexer} {letters : Text} {q : Char} {triple : Bool} {text : Text}
    (hletters : letters ∈ [] :: literalPrefixes) (hq : isQuote q = true)
    (hrest : l.rest = letters ++ delimiter q triple ++ text) :
    ∃ c t, l.rest = c :: t ∧
      scan l.surroundings c t = literal ⟨letters, delimiter q triple ++ text⟩ := by
  obtain ⟨ds, hds⟩ := delimiter_eq_cons q triple
  rw [hds, List.append_assoc, List.cons_append] at hrest
  obtain ⟨c, t, hcons⟩ : ∃ c t, l.rest = c :: t :=
    List.exists_cons_of_ne_nil (by simp [hrest])
  refine ⟨c, t, hcons, ?_⟩
  rw [hds, List.cons_append]
  exact (CodeChoice.of_quote hletters hq (hcons.symm.trans hrest)).scan_eq l.surroundings

/-- The answer is an error: there is no body, and it is left to say what the error is. -/
theorem ReadsLiteral.of_error {source : Text} {l : Lexer} {u : Turn} {letters : Text} {q : Char}
    {triple : Bool} {text : Text} {e : LexError} (hq : isQuote q = true)
    (hrest : l.rest = letters ++ delimiter q triple ++ text) (hreply : u.reply = .error e)
    (hnone : ∀ body, ¬ IsBody q triple text body)
    (herror : FailsAs source q triple text e) : ReadsLiteral source l u letters q triple text := by
  refine ⟨hrest, ?_, fun _ _ => IsBody.unique hq, fun _ => ⟨e, hreply, herror⟩⟩
  intro body
  refine iff_of_false ?_ (hnone body)
  rintro ⟨t, ht, -⟩
  rw [hreply] at ht
  contradiction

theorem readsLiteral_of_next {source before : Text} {l : Lexer} {u : Turn} {letters : Text}
    {q : Char} {triple : Bool} {text : Text} (h : l.Stands source before)
    (hletters : letters ∈ [] :: literalPrefixes) (hq : isQuote q = true)
    (htriple : startsTriple q (delimiter q triple ++ text) = triple)
    (hrest : l.rest = letters ++ delimiter q triple ++ text) (hnext : l.next = .ok u) :
    ReadsLiteral source l u letters q triple text := by
  obtain ⟨c, t, hcons, hscan⟩ := exists_scan_eq hletters hq hrest
  obtain ⟨items, rest, e, n, hreads, hend, hliteral⟩ := exists_literal_eq hq letters text htriple
  rw [hliteral] at hscan
  have hbody : ∀ body, IsBody q triple text body ↔ e = .closed ∧ body = items.flatten :=
    fun body => hreads.isBody_iff hq hend
  cases e with
  | closed =>
    cases hend with | closed behind
    rw [List.take_left, List.drop_left] at hscan
    obtain ⟨token, hreply, hkind, hvisible, htext, hleft⟩ :=
      exists_token_of_scan hcons hnext (by rw [hscan]; rfl)
    refine ⟨hrest, ?_, fun _ _ => IsBody.unique hq, ?_⟩
    · intro body
      rw [hbody]
      constructor
      · rintro ⟨t', ht', -, -, htext', -⟩
        obtain rfl := Except.ok.inj (hreply.symm.trans ht')
        have heq := htext.symm.trans htext'
        exact ⟨rfl, (List.append_cancel_left (List.append_cancel_right heq)).symm⟩
      · rintro ⟨-, rfl⟩
        refine ⟨token, hreply, hkind, hvisible, htext, ?_⟩
        rw [hrest, hreads.eq, hleft, hscan, htext]
        simp [closeLiteral, Scan.accept]
    · intro hnone
      exact absurd ((hbody items.flatten).mpr ⟨rfl, rfl⟩) (hnone _)
  | escape =>
    cases hend with | escape
    obtain ⟨e, hreply, hcause, hstop⟩ := h.exists_error hcons hscan hnext
    refine .of_error hq hrest hreply (by simp [hbody]) ⟨fun _ => ⟨hcause, hstop⟩, ?_⟩
    exact fun hnot => absurd ⟨items, hreads⟩ hnot
  | unclosed =>
    obtain ⟨rfl, hrest'⟩ := hend.of_unclosed
    obtain ⟨e, hreply, hcause, hstop⟩ := h.exists_error hcons hscan hnext
    refine .of_error hq hrest hreply (by simp [hbody]) ⟨?_, ?_⟩
    · rintro ⟨items', hreads'⟩
      obtain ⟨-, rfl⟩ := hreads.unique hq hend hreads' .escape
      rcases hrest' with hnil | ⟨-, behind, hfeed⟩
      · contradiction
      · exact absurd (List.cons.inj hfeed).1 (by decide)
    · intro _
      exact ⟨_, items, rest, hcause, toList_delimiter_ofQuote hq triple, hreads, hrest', hstop⟩

/-- **String literals are those of the grammar**: where letters and a quote stand ahead of a lexer
of a session on a source of less than `2 ^ 29` bytes, the answer of the lexer is the one that the
grammar says, with triple quotes if the quote stands there three times. -/
theorem readsLiteral_of_reachable {source : Text} {file : FileId} {l : Lexer} {letters : Text}
    {q : Char} {more : Text} (hsize : Text.byteSize source < 2 ^ 29) (h : Reachable source file l)
    (hletters : letters ∈ [] :: literalPrefixes) (hq : isQuote q = true)
    (hrest : l.rest = letters ++ q :: more) :
    ∃ u, l.next = .ok u ∧ ReadsLiteral source l u letters q (startsTriple q (q :: more))
      ((q :: more).drop (delimiter q (startsTriple q (q :: more))).length) := by
  obtain ⟨before, hstands⟩ := h.stands
  obtain ⟨u, hnext⟩ := hstands.exists_next hsize
  have hopen := delimiter_append_drop q more
  refine ⟨u, hnext, readsLiteral_of_next hstands hletters hq ?_ ?_ hnext⟩
  · rw [hopen]
  · rw [List.append_assoc, hopen, hrest]

/-- A quote behind a backslash, and triple quotes at the end of the source. -/
theorem readsLiteral_of_reachable_triple :
    ∃ source l m u v, source = ['u', '\'', '\\', '\'', '\'', '"', '"', '"'] ∧
      Text.byteSize source < 2 ^ 29 ∧ Reachable source ⟨3⟩ l ∧ Reachable source ⟨3⟩ m ∧
      l.next = .ok u ∧ u.reply = .ok ⟨.literal .string, ['u', '\'', '\\', '\'', '\''],
        ⟨0, 5, 1, 0, ⟨3⟩⟩, true⟩ ∧
      ReadsLiteral source l u ['u'] '\'' false ['\\', '\'', '\'', '"', '"', '"'] ∧
      m.next = .ok v ∧ v.reply = .error ⟨.unterminatedString .tripleDouble,
        ⟨5, 8, 1, 5, ⟨3⟩⟩⟩ ∧
      ReadsLiteral source m v [] '"' true [] := by
  have hsize : Text.byteSize ['u', '\'', '\\', '\'', '\'', '"', '"', '"'] < 2 ^ 29 := by decide
  have hcall : (ofSource ['u', '\'', '\\', '\'', '\'', '"', '"', '"'] ⟨3⟩).call .next =
      .ok (_, ⟨⟨3⟩, ['"', '"', '"'], ⟨5, 1, 5⟩, ⟨0, false, false, 0⟩, 1, false, false⟩) := rfl
  have hstart : Reachable ['u', '\'', '\\', '\'', '\'', '"', '"', '"'] ⟨3⟩ _ := .start
  have hnext := hstart.call hcall
  obtain ⟨u, hu, hreads⟩ := readsLiteral_of_reachable hsize hstart
    (by decide : ['u'] ∈ [] :: literalPrefixes) (by decide : isQuote '\'' = true) rfl
  obtain ⟨v, hv, hreads'⟩ := readsLiteral_of_reachable hsize hnext
    (by decide : [] ∈ [] :: literalPrefixes) (by decide : isQuote '"' = true) rfl
  refine ⟨_, _, _, u, v, rfl, hsize, hstart, hnext, hu, ?_, hreads, hv, ?_, hreads'⟩
  · exact congrArg Turn.reply (Except.ok.inj hu).symm
  · exact congrArg Turn.reply (Except.ok.inj hv).symm

end Lexer

end Lexis
