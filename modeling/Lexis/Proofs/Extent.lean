import Lexis.Proofs.CodeExtent

/-!
# How far a token reaches

A rule that gives a lexeme has read a certain front of the text, and every rule for layout says what
makes it end there: a newline is followed by no other, a comment by a line break or the end, space
by no more space. Here the outcome of the chosen rule is described by what is read and what is left,
and the description is enough to know the outcome.

* `Rule.Runs`: a run of line breaks, counted from the start of a text.
* `Extent`: the cases, one for each layout, each with what is read and why it ends there.
* `exists_extent`: the outcome of the chosen rule is one of them, if it is a lexeme.
* `Extent.scan_eq`: the case settles the outcome.
-/

namespace Lexis

/-! ## Runs of line breaks -/

namespace Rule

/-- The run that `f` counts at the start of a text goes on with what follows it. -/
structure Runs (f : Text → Nat) : Prop where
  le_length : ∀ t, f t ≤ t.length
  take_append : ∀ t rest, f (t.take (f t) ++ rest) = f t + f rest

namespace Runs

variable {f : Text → Nat} {front rest : Text}

/-- Behind the run there is none. -/
theorem eq_zero (hf : Runs f) (h : f (front ++ rest) = front.length) : f rest = 0 := by
  have happend := hf.take_append (front ++ rest) rest
  rw [h, List.take_left, h] at happend
  omega

/-- The run is the same in front of another text, if that goes on with none. -/
theorem append_eq (hf : Runs f) (h : f (front ++ rest) = front.length) {rest' : Text}
    (hrest : f rest' = 0) : f (front ++ rest') = front.length := by
  have happend := hf.take_append (front ++ rest) rest'
  rwa [h, List.take_left, hrest] at happend

end Runs

theorem runs_newlines : Runs newlines where
  le_length t := by
    fun_induction newlines t with
    | case1 t ih => exact Nat.succ_le_succ ih
    | case2 t ih => exact Nat.add_le_add_right ih 2
    | case3 t ih => exact Nat.add_le_add_right ih 2
    | case4 t ih => exact Nat.add_le_add_right ih 3
    | case5 t => exact Nat.zero_le _
  take_append t rest := by
    fun_induction newlines t with
    | case1 t ih => simp [newlines, ih, Nat.add_right_comm]
    | case2 t ih => simp [newlines, ih, Nat.add_right_comm]
    | case3 t ih => simp [newlines, ih, Nat.add_right_comm]
    | case4 t ih => simp [newlines, ih, Nat.add_right_comm]
    | case5 t => simp

theorem runs_lineBreaks : Runs lineBreaks where
  le_length t := by
    fun_induction lineBreaks t with
    | case1 t ih => exact Nat.succ_le_succ ih
    | case2 t ih => exact Nat.add_le_add_right ih 2
    | case3 t => exact Nat.zero_le _
  take_append t rest := by
    fun_induction lineBreaks t with
    | case1 t ih => simp [lineBreaks, ih, Nat.add_right_comm]
    | case2 t ih => simp [lineBreaks, ih, Nat.add_right_comm]
    | case3 t => simp

/-- What a newline can start with. -/
def newlineStarts : List Text := [['\n'], ['\r', '\n'], ['\x0c', '\n'], ['\x0c', '\r', '\n']]

theorem newlines_pos_iff (t : Text) : 0 < newlines t ↔ ∃ x ∈ newlineStarts, x <+: t := by
  constructor
  · intro h
    unfold newlines at h
    split at h
    · exact ⟨['\n'], by decide, by simp⟩
    · exact ⟨['\r', '\n'], by decide, by simp⟩
    · exact ⟨['\x0c', '\n'], by decide, by simp⟩
    · exact ⟨['\x0c', '\r', '\n'], by decide, by simp⟩
    · contradiction
  · rintro ⟨x, hx, rest, rfl⟩
    simp only [newlineStarts, List.mem_cons, List.not_mem_nil, or_false] at hx
    rcases hx with rfl | rfl | rfl | rfl <;> simp [newlines]

theorem lineBreaks_pos_iff (t : Text) :
    0 < lineBreaks t ↔ ['\n'] <+: t ∨ ['\r', '\n'] <+: t := by
  constructor
  · intro h
    unfold lineBreaks at h
    split at h
    · exact .inl (by simp)
    · exact .inr (by simp)
    · contradiction
  · rintro (⟨rest, rfl⟩ | ⟨rest, rfl⟩) <;> simp [lineBreaks]

/-! ## The length of a line -/

theorem lineLength_cons (c : Char) (t : Text) :
    lineLength (c :: t) =
      if c = '\n' ∨ (c = '\r' ∧ t.head? = some '\n') then 0 else lineLength t + 1 := by
  by_cases hn : c = '\n'
  · subst hn
    simp [lineLength]
  · by_cases hr : c = '\r'
    · subst hr
      cases t with
      | nil => simp [lineLength]
      | cons d t =>
        by_cases hd : d = '\n'
        · subst hd
          simp [lineLength]
        · simp [lineLength, hd]
    · simp [lineLength, hn, hr]

theorem lineLength_eq_zero_iff (t : Text) : lineLength t = 0 ↔ t = [] ∨ 0 < lineBreaks t := by
  rw [lineBreaks_pos_iff]
  cases t with
  | nil => simp [lineLength]
  | cons c t =>
    rw [lineLength_cons]
    cases t with
    | nil => simp [eq_comm]
    | cons d t => simpa [eq_comm] using or_iff_not_imp_left.symm

theorem lineLength_le_length (t : Text) : lineLength t ≤ t.length := by
  fun_induction lineLength t with
  | case1 => exact Nat.le_refl 0
  | case2 t => exact Nat.zero_le _
  | case3 t => exact Nat.zero_le _
  | case4 c t _ _ ih => exact Nat.succ_le_succ ih

/-- A line holds no line feed, -/
theorem not_mem_of_lineLength {text rest : Text} (h : lineLength (text ++ rest) = text.length) :
    '\n' ∉ text := by
  have hmem := not_mem_take_lineLength (text ++ rest)
  rwa [h, List.take_left] at hmem

/-- and behind it is its end. -/
theorem lineLength_rest_eq_zero {front rest : Text}
    (h : lineLength (front ++ rest) = front.length) : lineLength rest = 0 := by
  induction front with
  | nil => exact h
  | cons c front ih =>
    rw [List.cons_append, lineLength_cons, List.length_cons] at h
    split at h
    · contradiction
    · exact ih (Nat.succ.inj h)

/-- A line that ends in front of a text ends in front of another one, unless a carriage return at
its end becomes a part of a line break. -/
theorem lineLength_append_eq {front rest rest' : Text}
    (h : lineLength (front ++ rest) = front.length) (hstop : lineLength rest' = 0)
    (hhead : rest'.head? = some '\n' → rest.head? = some '\n') :
    lineLength (front ++ rest') = front.length := by
  induction front with
  | nil => exact hstop
  | cons c front ih =>
    rw [List.cons_append, lineLength_cons, List.length_cons] at h ⊢
    have hheads : (front ++ rest').head? = some '\n' → (front ++ rest).head? = some '\n' := by
      cases front with
      | nil => exact hhead
      | cons d front => exact id
    split at h
    · contradiction
    · rename_i hline
      rw [if_neg fun hor => hline (hor.imp_right (And.imp_right hheads)), ih (Nat.succ.inj h)]

end Rule

/-! ## What is read and what is left -/

/-- The outcome `r` of a rule that reads `front` and leaves `rest`. -/
inductive Extent (s : Surroundings) : (front rest : Text) → Scan → Prop
  /-- A run of line breaks. -/
  | newline {front rest : Text} (hne : front ≠ [])
      (hbreak : Rule.newlines (front ++ rest) = front.length) :
      Extent s front rest (.accept (.layout .newline) s.endsLine ⟨front, rest⟩)
  /-- Space behind something on its line, or behind a form feed. -/
  | blank {space rest : Text} (hne : space ≠ []) (hspace : ∀ c ∈ space, isBlank c = true)
      (hend : rest.head?.any isBlank = false) (hbreak : Rule.newlines (space ++ rest) = 0)
      (hindent : s.lineStart = true → space.head?.any isIndent = false) :
      Extent s space rest (.accept (.layout .blank) false ⟨space, rest⟩)
  /-- Space that starts a line inside brackets. -/
  | bracketed {space rest : Text} (hstart : s.lineStart = true) (hbrackets : s.inBrackets = true)
      (hne : space ≠ []) (hspace : ∀ c ∈ space, isIndent c = true)
      (hend : rest.head?.any isIndent = false) (hhash : rest.head?.any (· = '#') = false) :
      Extent s space rest
        { Scan.accept (.layout .blank) false ⟨space, rest⟩ with indent := indentWidth space }
  /-- Space that starts a line outside brackets, and the line breaks behind it. -/
  | indentation {space breaks rest : Text} (hstart : s.lineStart = true)
      (hbrackets : s.inBrackets = false) (hne : space ≠ [])
      (hspace : ∀ c ∈ space, isIndent c = true)
      (hend : (breaks ++ rest).head?.any isIndent = false)
      (hhash : (breaks ++ rest).head?.any (· = '#') = false)
      (hbreaks : Rule.lineBreaks (breaks ++ rest) = breaks.length) :
      Extent s (space ++ breaks) rest
        ⟨⟨space ++ breaks, rest⟩,
          .ok ⟨.layout .indentation, false, List.replicate (indentWidth space) ' '⟩,
          indentWidth space⟩
  /-- A comment that starts a line, with the space in front and the line breaks behind it. -/
  | lineComment {space text breaks rest : Text} (hstart : s.lineStart = true)
      (hspace : ∀ c ∈ space, isIndent c = true)
      (htext : Rule.lineLength (text ++ (breaks ++ rest)) = text.length)
      (hbreaks : Rule.lineBreaks (breaks ++ rest) = breaks.length) :
      Extent s (space ++ '#' :: (text ++ breaks)) rest
        { Scan.accept (.layout .comment) false ⟨space ++ '#' :: (text ++ breaks), rest⟩ with
          indent := indentWidth space }
  /-- A comment behind something on its line. -/
  | comment {text rest : Text} (hstart : s.lineStart = false)
      (htext : Rule.lineLength (text ++ rest) = text.length) :
      Extent s ('#' :: text) rest (.accept (.layout .comment) false ⟨'#' :: text, rest⟩)
  /-- A backslash, a line break and the space behind it. -/
  | continuation {feed space rest : Text} (hfeed : feed = ['\n'] ∨ feed = ['\r', '\n'])
      (hspace : ∀ c ∈ space, isIndent c = true) (hend : rest.head?.any isIndent = false) :
      Extent s ('\\' :: (feed ++ space)) rest
        (.accept (.layout .continuation) false ⟨'\\' :: (feed ++ space), rest⟩)
  /-- No layout. -/
  | code {c : Char} {tail rest : Text} {r : Scan} {lexeme : Lexeme}
      (h : CodeChoice c (tail ++ rest) r) (hread : r.reading = ⟨c :: tail, rest⟩)
      (hlexeme : r.result = .ok lexeme) : Extent s (c :: tail) rest r

/-! ## The rules, given what is read -/

/-- So many characters are passed as are in front. -/
theorem Reading.skip_append {taken front rest : Text} {n : Nat} (h : n = front.length) :
    (Reading.mk taken (front ++ rest)).skip n = ⟨taken ++ front, rest⟩ := by
  simp [Reading.skip, h]

/-- A class takes what is in front, if that is all of it. -/
theorem Reading.takeWhile_append {taken front rest : Text} {p : Char → Bool}
    (hfront : ∀ c ∈ front, p c = true) (hend : rest.head?.any p = false) :
    (Reading.mk taken (front ++ rest)).takeWhile p = ⟨taken ++ front, rest⟩ := by
  obtain ⟨htake, hdrop⟩ := takeWhile_of_head hend
  rw [Reading.takeWhile, List.takeWhile_append_of_pos hfront, List.dropWhile_append_of_pos hfront,
    htake, hdrop, List.append_nil]

/-- A text splits where a count from its start ends, -/
theorem Text.exists_append_of_le {t : Text} {n : Nat} (h : n ≤ t.length) :
    ∃ front rest, t = front ++ rest ∧ n = front.length :=
  ⟨t.take n, t.drop n, (List.take_append_drop n t).symm, by simp [h]⟩

/-- and where a class ends. -/
theorem Text.exists_append_of_class (p : Char → Bool) (t : Text) :
    ∃ front rest, t = front ++ rest ∧ (∀ c ∈ front, p c = true) ∧ rest.head?.any p = false := by
  refine ⟨t.takeWhile p, t.dropWhile p, List.takeWhile_append_dropWhile.symm,
    fun _ h => List.mem_takeWhile_imp h, ?_⟩
  induction t with
  | nil => rfl
  | cons c t ih =>
    cases hc : p c with
    | false => simp [hc]
    | true => simpa [hc] using ih

namespace Rule

theorem newline_eq {front rest : Text} (visible : Bool)
    (hbreak : newlines (front ++ rest) = front.length) :
    newline visible (front ++ rest) = .accept (.layout .newline) visible ⟨front, rest⟩ := by
  rw [newline, Reading.start, Reading.skip_append hbreak, List.nil_append]

theorem blank_eq {space rest : Text} (hspace : ∀ c ∈ space, isBlank c = true)
    (hend : rest.head?.any isBlank = false) :
    blank (space ++ rest) = .accept (.layout .blank) false ⟨space, rest⟩ := by
  rw [blank, Reading.start, Reading.takeWhile_append hspace hend, List.nil_append]

theorem commentText_eq {space text rest : Text}
    (htext : lineLength (text ++ rest) = text.length) :
    commentText ⟨space, '#' :: (text ++ rest)⟩ = ⟨space ++ '#' :: text, rest⟩ := by
  have hhash : (Reading.mk space ('#' :: (text ++ rest))).skip 1 =
      ⟨space ++ ['#'], text ++ rest⟩ := rfl
  rw [commentText, hhash, Reading.skip_append htext, List.append_assoc, List.singleton_append]

theorem lineComment_eq {space text breaks rest : Text}
    (htext : lineLength (text ++ (breaks ++ rest)) = text.length)
    (hbreaks : lineBreaks (breaks ++ rest) = breaks.length) :
    lineComment ⟨space, '#' :: (text ++ (breaks ++ rest))⟩ =
      .accept (.layout .comment) false ⟨space ++ '#' :: (text ++ breaks), rest⟩ := by
  rw [lineComment, commentText_eq htext, Reading.skip_append hbreaks, List.append_assoc,
    List.cons_append]

/-- Space at the start of a line is looked at with what follows it. -/
theorem lineSpace_eq {space rest : Text} (inBrackets : Bool)
    (hspace : ∀ c ∈ space, isIndent c = true) (hend : rest.head?.any isIndent = false) :
    lineSpace inBrackets (space ++ rest) =
      if rest.head?.any (· = '#') then
        { lineComment ⟨space, rest⟩ with indent := indentWidth space }
      else if inBrackets then
        { Scan.accept (.layout .blank) false ⟨space, rest⟩ with indent := indentWidth space }
      else indentation ⟨space, rest⟩ (indentWidth space) := by
  rw [lineSpace, Reading.start, Reading.takeWhile_append hspace hend, List.nil_append]
  rfl

theorem indentation_eq {space breaks rest : Text} (width : Nat)
    (hbreaks : lineBreaks (breaks ++ rest) = breaks.length) :
    indentation ⟨space, breaks ++ rest⟩ width =
      ⟨⟨space ++ breaks, rest⟩, .ok ⟨.layout .indentation, false, List.replicate width ' '⟩,
        width⟩ := by
  rw [indentation, Reading.skip_append hbreaks]

theorem continuation_eq {feed space rest : Text} (hfeed : feed = ['\n'] ∨ feed = ['\r', '\n'])
    (hspace : ∀ c ∈ space, isIndent c = true) (hend : rest.head?.any isIndent = false) :
    continuation ('\\' :: (feed ++ (space ++ rest))) =
      .accept (.layout .continuation) false ⟨'\\' :: (feed ++ space), rest⟩ := by
  have htake : (Reading.mk ('\\' :: feed) (space ++ rest)).takeWhile isIndent =
      ⟨'\\' :: feed ++ space, rest⟩ := Reading.takeWhile_append hspace hend
  rcases hfeed with rfl | rfl
  · exact congrArg (Scan.accept _ _) htake
  · exact congrArg (Scan.accept _ _) htake

end Rule

/-! ## From the outcome to what is read -/

open Rule

variable {s : Surroundings}

/-- A comment at the start of a line is its text and the line breaks behind it. -/
theorem exists_extent_lineComment (hstart : s.lineStart = true) {space : Text}
    (hspace : ∀ c ∈ space, isIndent c = true) (t : Text) :
    ∃ front rest, space ++ '#' :: t = front ++ rest ∧
      Extent s front rest { lineComment ⟨space, '#' :: t⟩ with indent := indentWidth space } := by
  obtain ⟨text, behind, rfl, htext⟩ := Text.exists_append_of_le (lineLength_le_length t)
  obtain ⟨breaks, rest, rfl, hbreaks⟩ := Text.exists_append_of_le (runs_lineBreaks.le_length behind)
  rw [lineComment_eq htext hbreaks]
  exact ⟨_, rest, by simp, .lineComment hstart hspace htext hbreaks⟩

theorem exists_extent_lineSpace (hstart : s.lineStart = true) {c : Char} {t : Text}
    (hc : isIndent c = true) :
    ∃ front rest, c :: t = front ++ rest ∧
      Extent s front rest (lineSpace s.inBrackets (c :: t)) := by
  obtain ⟨space, behind, heq, hspace, hend⟩ := Text.exists_append_of_class isIndent (c :: t)
  have hne : space ≠ [] := by
    rintro rfl
    rw [List.nil_append] at heq
    rw [← heq] at hend
    simp [hc] at hend
  rw [heq, lineSpace_eq _ hspace hend]
  split
  · rename_i hhash
    cases behind with
    | nil => contradiction
    | cons d behind =>
      obtain rfl : d = '#' := by simpa using hhash
      exact exists_extent_lineComment hstart hspace behind
  · rename_i hhash
    rw [Bool.not_eq_true] at hhash
    split
    · rename_i hbrackets
      exact ⟨space, behind, rfl, .bracketed hstart hbrackets hne hspace hend hhash⟩
    · rename_i hbrackets
      rw [Bool.not_eq_true] at hbrackets
      obtain ⟨breaks, rest, rfl, hbreaks⟩ :=
        Text.exists_append_of_le (runs_lineBreaks.le_length behind)
      rw [indentation_eq _ hbreaks]
      exact ⟨space ++ breaks, rest, by simp,
        .indentation hstart hbrackets hne hspace hend hhash hbreaks⟩

theorem exists_extent_continuation {t : Text} {lexeme : Lexeme}
    (hlexeme : (continuation ('\\' :: t)).result = .ok lexeme) :
    ∃ front rest, '\\' :: t = front ++ rest ∧ Extent s front rest (continuation ('\\' :: t)) := by
  have hfeed : ∃ feed behind, t = feed ++ behind ∧ (feed = ['\n'] ∨ feed = ['\r', '\n']) := by
    by_cases hbreak : lineBreak t = 0
    · cases t with
      | nil => contradiction
      | cons d t => simp [continuation, Reading.start, Reading.skip, hbreak, Scan.reject] at hlexeme
    · unfold lineBreak at hbreak
      split at hbreak
      · exact ⟨['\n'], _, rfl, .inl rfl⟩
      · exact ⟨['\r', '\n'], _, rfl, .inr rfl⟩
      · contradiction
  obtain ⟨feed, behind, rfl, hfeed⟩ := hfeed
  obtain ⟨space, rest, rfl, hspace, hend⟩ := Text.exists_append_of_class isIndent behind
  rw [continuation_eq hfeed hspace hend]
  exact ⟨_, rest, by simp, .continuation hfeed hspace hend⟩

/-- **A lexeme comes from one of the cases.** -/
theorem exists_extent {c : Char} {t : Text} {lexeme : Lexeme}
    (hlexeme : (scan s c t).result = .ok lexeme) :
    ∃ front rest, c :: t = front ++ rest ∧ Extent s front rest (scan s c t) := by
  have hwhole := whole_scan s c t
  have hne := taken_scan_ne_nil s c t
  generalize hscan : scan s c t = r at *
  have hchoice : Choice s c t r := hscan ▸ choice_scan s c t
  cases hchoice with
  | newline hbreak =>
    obtain ⟨front, rest, heq, hlength⟩ :=
      Text.exists_append_of_le (runs_newlines.le_length (c :: t))
    rw [heq] at hlength hbreak ⊢
    rw [newline_eq _ hlength]
    refine ⟨front, rest, rfl, .newline ?_ hlength⟩
    exact List.ne_nil_of_length_pos (by omega)
  | lineSpace hstart hc => exact exists_extent_lineSpace hstart hc
  | blank hbreak hc hindent =>
    obtain ⟨space, rest, heq, hspace, hend⟩ := Text.exists_append_of_class isBlank (c :: t)
    cases space with
    | nil =>
      rw [List.nil_append] at heq
      rw [← heq] at hend
      simp [hc] at hend
    | cons d space =>
      obtain ⟨rfl, -⟩ := List.cons.inj heq
      rw [heq] at hbreak ⊢
      rw [blank_eq hspace hend]
      exact ⟨_, rest, rfl, .blank (by simp) hspace hend hbreak (by simpa using hindent)⟩
  | comment hc =>
    subst hc
    cases hstart : s.lineStart with
    | true => exact exists_extent_lineComment hstart (fun _ h => absurd h List.not_mem_nil) t
    | false =>
      obtain ⟨text, rest, rfl, htext⟩ := Text.exists_append_of_le (lineLength_le_length t)
      have heq : comment false ('#' :: (text ++ rest)) =
          .accept (.layout .comment) false ⟨'#' :: text, rest⟩ :=
        congrArg (Scan.accept _ _) (commentText_eq htext)
      rw [heq]
      exact ⟨_, rest, rfl, .comment hstart htext⟩
  | continuation hc =>
    subst hc
    exact exists_extent_continuation hlexeme
  | code h =>
    cases htaken : r.reading.taken with
    | nil => contradiction
    | cons d tail =>
      rw [Reading.whole, htaken, List.cons_append] at hwhole
      obtain ⟨rfl, rfl⟩ := List.cons.inj hwhole
      exact ⟨_, _, rfl, .code h (by rw [← htaken]) hlexeme⟩

/-! ## From what is read to the outcome -/

namespace Extent

variable {front rest : Text} {r : Scan}

theorem reading_eq (h : Extent s front rest r) : r.reading = ⟨front, rest⟩ := by
  cases h with
  | code _ hread => exact hread
  | _ => rfl

theorem front_ne_nil (h : Extent s front rest r) : front ≠ [] := by
  cases h with
  | newline hne => exact hne
  | blank hne => exact hne
  | bracketed _ _ hne => exact hne
  | indentation _ _ hne => exact List.append_ne_nil_of_left_ne_nil hne _
  | lineComment => simp
  | comment => simp
  | continuation => simp
  | code => simp

/-- Space that starts a line is read by its own rule. -/
theorem scan_of_lineSpace (hstart : s.lineStart = true) {space behind : Text} (hne : space ≠ [])
    (hspace : ∀ c ∈ space, isIndent c = true) {c : Char} {t : Text}
    (heq : c :: t = space ++ behind) :
    scan s c t = lineSpace s.inBrackets (space ++ behind) := by
  have hc : isIndent c = true := by
    cases space with
    | nil => contradiction
    | cons d space =>
      obtain ⟨rfl, -⟩ := List.cons.inj heq
      exact hspace c List.mem_cons_self
  rw [← heq]
  exact (Choice.lineSpace hstart hc).scan_eq

/-- **The case settles the outcome.** -/
theorem scan_eq (h : Extent s front rest r) {c : Char} {t : Text} (heq : c :: t = front ++ rest) :
    scan s c t = r := by
  cases h with
  | newline hne hbreak =>
    have hpos : 0 < newlines (c :: t) := by
      rw [heq, hbreak]
      exact List.length_pos_iff.mpr hne
    rw [(Choice.newline hpos).scan_eq, heq, newline_eq _ hbreak]
  | blank hne hspace hend hbreak hindent =>
    cases front with
    | nil => contradiction
    | cons d space =>
      obtain ⟨rfl, rfl⟩ := List.cons.inj heq
      have hc := hspace c List.mem_cons_self
      rw [(Choice.blank hbreak hc hindent).scan_eq, heq, blank_eq hspace hend]
  | bracketed hstart hbrackets hne hspace hend hhash =>
    rw [scan_of_lineSpace hstart hne hspace heq, lineSpace_eq _ hspace hend, hhash, hbrackets]
    rfl
  | indentation hstart hbrackets hne hspace hend hhash hbreaks =>
    rw [List.append_assoc] at heq
    rw [scan_of_lineSpace hstart hne hspace heq, lineSpace_eq _ hspace hend, hhash, hbrackets]
    exact indentation_eq _ hbreaks
  | @lineComment space text breaks _ hstart hspace htext hbreaks =>
    rw [List.append_assoc, List.cons_append, List.append_assoc] at heq
    cases space with
    | nil =>
      obtain ⟨rfl, rfl⟩ := List.cons.inj heq
      rw [(Choice.comment rfl).scan_eq, hstart]
      exact lineComment_eq htext hbreaks
    | cons d space =>
      rw [scan_of_lineSpace hstart (by simp) hspace heq, lineSpace_eq _ hspace (by simp [isIndent]),
        lineComment_eq htext hbreaks]
      rfl
  | comment hstart htext =>
    obtain ⟨rfl, rfl⟩ := List.cons.inj heq
    rw [(Choice.comment rfl).scan_eq, hstart]
    exact congrArg (Scan.accept _ _) (commentText_eq htext)
  | continuation hfeed hspace hend =>
    rw [List.cons_append, List.append_assoc] at heq
    obtain ⟨rfl, rfl⟩ := List.cons.inj heq
    rw [(Choice.continuation rfl).scan_eq, continuation_eq hfeed hspace hend]
  | code h _ _ =>
    obtain ⟨rfl, rfl⟩ := List.cons.inj heq
    exact h.scan_eq s

end Extent

end Lexis
