import Mathlib.Computability.Language
import Mathlib.Data.List.TakeWhile
import Lexis.Lexer.Reading

/-!
# Longest match

A grammar says which texts are words, a rule reads a text from left to right and gives nothing back.
A rule for a grammar has to take the longest word in front of it. This is shown part by part: a rule
that takes all it can for one part of a word has not taken too much if the next part starts with a
character that could not have belonged to the first.

* `Grammar.one`, `Grammar.many`, `Grammar.many1`: the grammars of a character, of any number of
  characters and of at least one, of some class. Grammars are put together as `Language`s are.
* `Grammar.IsLongest`: the longest word in front of a text, which is unique.
* `Grammar.Munches`: a reading goes on as far as a grammar allows. `Munches.mul` follows two parts
  of a word, and `Munches.le_taken` says that no word in front of a text goes further.
* `Grammar.Within`, `Grammar.EndsWith`: the characters that the words of a grammar have, and those
  with which they end.
-/

namespace Lexis

/-! ## What a reading sees -/

namespace Reading

variable {r : Reading} {p : Char → Bool}

theorem left_ne_nil_of_sees (h : r.sees p = true) : r.left ≠ [] := by
  intro hnil
  rw [sees, hnil] at h
  contradiction

theorem head_of_sees (h : r.sees p = true) : ∀ c ∈ r.left.head?, p c = true := by
  intro c hc
  rw [sees, hc] at h
  exact h

theorem sees_of_isPrefix {c : Char} {w : Text} (hc : p c = true) (h : c :: w <+: r.left) :
    r.sees p = true := by
  obtain ⟨rest, hrest⟩ := h
  rw [sees, ← hrest]
  exact hc

end Reading

namespace Grammar

/-! ## Words -/

/-- One character of a class. -/
def one (p : Char → Bool) : Language Char := {w | ∃ c, p c = true ∧ w = [c]}

/-- Any number of characters of a class. -/
def many (p : Char → Bool) : Language Char := {w | ∀ c ∈ w, p c = true}

/-- At least one character of a class. -/
def many1 (p : Char → Bool) : Language Char := {w | w ≠ [] ∧ ∀ c ∈ w, p c = true}

@[simp] theorem mem_one {p : Char → Bool} {w : Text} : w ∈ one p ↔ ∃ c, p c = true ∧ w = [c] :=
  Iff.rfl

@[simp] theorem mem_many {p : Char → Bool} {w : Text} : w ∈ many p ↔ ∀ c ∈ w, p c = true := Iff.rfl

theorem singleton_mem_many1 {p : Char → Bool} {c : Char} (h : p c = true) : [c] ∈ many1 p :=
  ⟨List.cons_ne_nil c [], List.forall_mem_singleton.mpr h⟩

/-- The second part of a word may be missing. -/
theorem mem_mul_optional {L K : Language Char} {w : Text} (h : w ∈ L) : w ∈ L * (1 + K) :=
  Language.mem_mul.mpr ⟨w, h, [], .inl rfl, List.append_nil w⟩

/-- A text starts with a word of a grammar. -/
def Starts (L : Language Char) (t : Text) : Prop := ∃ w ∈ L, w <+: t

/-- A word in two parts starts with the first. -/
theorem Starts.of_mul {L K : Language Char} {t : Text} (h : Starts (L * K) t) : Starts L t := by
  obtain ⟨w, hw, hprefix⟩ := h
  obtain ⟨a, ha, x, -, rfl⟩ := Language.mem_mul.mp hw
  exact ⟨a, ha, (List.prefix_append a x).trans hprefix⟩

theorem starts_one_iff {p : Char → Bool} {t : Text} : Starts (one p) t ↔ t.head?.any p = true := by
  cases t with
  | nil => simp [Starts]
  | cons c t => simp [Starts]

/-- The longest word of a grammar that a text starts with. -/
structure IsLongest (L : Language Char) (t w : Text) : Prop where
  mem : w ∈ L
  isPrefix : w <+: t
  length_le : ∀ v ∈ L, v <+: t → v.length ≤ w.length

/-- There is one longest word at most. -/
theorem IsLongest.unique {L : Language Char} {t v w : Text} (hv : IsLongest L t v)
    (hw : IsLongest L t w) : v = w := by
  have hle := hw.length_le v hv.mem hv.isPrefix
  have hge := hv.length_le w hw.mem hw.isPrefix
  exact (List.prefix_of_prefix_length_le hv.isPrefix hw.isPrefix hle).eq_of_length (by omega)

/-! ## Greedy readings -/

/-- From `r` to `s` as much is read as the grammar `L` allows: no word of `L` goes further than `s`,
and a word that is followed by a character out of the class `p` ends there. -/
structure Munches (L : Language Char) (p : Char → Bool) (r s : Reading) : Prop where
  /-- What is read. -/
  exists_read : ∃ w, s.taken = r.taken ++ w ∧ r.left = w ++ s.left
  /-- No word goes further. -/
  isPrefix : ∀ v ∈ L, v <+: r.left → r.taken ++ v <+: s.taken
  /-- A word does not end earlier, unless the grammar may go on behind it. -/
  taken_eq : ∀ v ∈ L, ∀ c, p c = false → v ++ [c] <+: r.left → s.taken = r.taken ++ v

namespace Munches

variable {L K : Language Char} {p q : Char → Bool} {r s s' : Reading}

theorem taken_isPrefix (h : Munches L p r s) : r.taken <+: s.taken := by
  obtain ⟨w, hw, -⟩ := h.exists_read
  exact ⟨w, hw.symm⟩

/-- Behind a word that ends where the reading does, the text goes on as it is left. -/
theorem left_eq (h : Munches L p r s) {v : Text} (hv : s.taken = r.taken ++ v) :
    r.left = v ++ s.left := by
  obtain ⟨w, hw, hleft⟩ := h.exists_read
  rw [hleft, List.append_cancel_left (hv.symm.trans hw)]

/-- A reading goes as far for a part of a grammar. -/
theorem mono (h : Munches L p r s) (hK : ∀ v ∈ K, v ∈ L) (hpq : ∀ c, p c = true → q c = true) :
    Munches K q r s where
  exists_read := h.exists_read
  isPrefix v hv := h.isPrefix v (hK v hv)
  taken_eq v hv c hc := by
    refine h.taken_eq v (hK v hv) c ?_
    by_contra hp
    rw [hpq c (by simpa using hp)] at hc
    contradiction

/-- A grammar without a word in front of the text, the empty one apart, takes nothing. -/
theorem refl (r : Reading) (h : ∀ v ∈ L, v <+: r.left → v = []) : Munches L p r r where
  exists_read := ⟨[], by simp, by simp⟩
  isPrefix v hv hprefix := by
    rw [h v hv hprefix, List.append_nil]
  taken_eq v hv c _ hprefix := by
    rw [h v hv ((List.prefix_append v [c]).trans hprefix), List.append_nil]

/-- **A word in two parts** is read part by part, if the second does not start with a character that
the first could have gone on with. -/
theorem mul (hL : Munches L p r s) (hK : Munches K q s s') (hpq : ∀ c, p c = true → q c = true)
    (hhead : ∀ x ∈ K, ∀ c ∈ x.head?, p c = false) : Munches (L * K) q r s' := by
  -- a first part with a second one behind it ends where the reading of the first part does
  have hfirst : ∀ a ∈ L, ∀ c x, p c = false → a ++ c :: x <+: r.left →
      s.taken = r.taken ++ a ∧ c :: x <+: s.left := by
    intro a ha c x hc hprefix
    have hnext : a ++ [c] <+: r.left := by
      refine .trans ?_ hprefix
      rw [List.prefix_append_right_inj]
      exact List.prefix_append [c] x
    have htaken := hL.taken_eq a ha c hc hnext
    rw [hL.left_eq htaken, List.prefix_append_right_inj] at hprefix
    exact ⟨htaken, hprefix⟩
  refine ⟨?_, ?_, ?_⟩
  · obtain ⟨w, hw, hleft⟩ := hL.exists_read
    obtain ⟨w', hw', hleft'⟩ := hK.exists_read
    refine ⟨w ++ w', ?_, ?_⟩
    · rw [hw', hw, List.append_assoc]
    · rw [hleft, hleft', List.append_assoc]
  · intro v hv hprefix
    obtain ⟨a, ha, x, hx, rfl⟩ := Language.mem_mul.mp hv
    cases x with
    | nil =>
      rw [List.append_nil] at hprefix ⊢
      exact (hL.isPrefix a ha hprefix).trans hK.taken_isPrefix
    | cons c x =>
      obtain ⟨htaken, hrest⟩ := hfirst a ha c x (hhead _ hx c rfl) hprefix
      rw [← List.append_assoc, ← htaken]
      exact hK.isPrefix _ hx hrest
  · intro v hv c hc hprefix
    obtain ⟨a, ha, x, hx, rfl⟩ := Language.mem_mul.mp hv
    rw [List.append_assoc] at hprefix
    cases x with
    | nil =>
      have hp : p c = false := by
        by_contra hp
        rw [hpq c (by simpa using hp)] at hc
        contradiction
      obtain ⟨htaken, hrest⟩ := hfirst a ha c [] hp hprefix
      rw [hK.taken_eq [] hx c hc hrest, htaken, List.append_assoc]
    | cons d x =>
      obtain ⟨htaken, hrest⟩ := hfirst a ha d (x ++ [c]) (hhead _ hx d rfl) hprefix
      rw [hK.taken_eq _ hx c hc hrest, htaken, List.append_assoc]

/-- A part of a word may be missing, unless the text goes on with a character that it could start
with. -/
theorem optional (h : Munches L p r s) (hhead : ∀ c ∈ r.left.head?, p c = true) :
    Munches (1 + L) p r s where
  exists_read := h.exists_read
  isPrefix v hv hprefix := by
    rcases hv with rfl | hv
    · rw [List.append_nil]
      exact h.taken_isPrefix
    · exact h.isPrefix v hv hprefix
  taken_eq v hv c hc hprefix := by
    rcases hv with rfl | hv
    · obtain ⟨rest, hrest⟩ := hprefix
      have hp := hhead c (by rw [← hrest]; rfl)
      rw [hc] at hp
      contradiction
    · exact h.taken_eq v hv c hc hprefix

/-! ## The ways to read on -/

theorem takeWhile (r : Reading) (p : Char → Bool) : Munches (many p) p r (r.takeWhile p) where
  exists_read := ⟨r.left.takeWhile p, rfl, (List.takeWhile_append_dropWhile).symm⟩
  isPrefix v hv hprefix := by
    obtain ⟨rest, hrest⟩ := hprefix
    have hv' : ∀ d ∈ v, p d = true := hv
    rw [Reading.takeWhile, ← hrest, List.takeWhile_append_of_pos hv', ← List.append_assoc]
    exact List.prefix_append _ _
  taken_eq v hv c hc hprefix := by
    obtain ⟨rest, hrest⟩ := hprefix
    have hv' : ∀ d ∈ v, p d = true := hv
    rw [Reading.takeWhile, ← hrest, List.append_assoc, List.takeWhile_append_of_pos hv']
    simp [hc]

theorem skip_one (q : Char → Bool) (h : r.left ≠ []) : Munches (one q) p r (r.skip 1) := by
  obtain ⟨taken, left⟩ := r
  cases left with
  | nil => contradiction
  | cons c left =>
    refine ⟨⟨[c], rfl, rfl⟩, ?_, ?_⟩
    · rintro _ ⟨d, -, rfl⟩ hprefix
      obtain ⟨rfl, -⟩ := List.cons_prefix_cons.mp hprefix
      exact List.prefix_rfl
    · rintro _ ⟨d, -, rfl⟩ e - hprefix
      obtain ⟨rfl, -⟩ := List.cons_prefix_cons.mp hprefix
      rfl

theorem takeIf (r : Reading) (p : Char → Bool) : Munches (1 + one p) p r (r.takeIf p) := by
  unfold Reading.takeIf
  split
  · rename_i hsees
    exact (skip_one p (r.left_ne_nil_of_sees hsees)).optional (r.head_of_sees hsees)
  · rename_i hsees
    refine .refl r ?_
    rintro v (rfl | ⟨c, hc, rfl⟩) hprefix
    · rfl
    · exact absurd (r.sees_of_isPrefix hc hprefix) hsees

/-! ## From the start of a text -/

variable {t v : Text}

/-- **No word in front of a text goes further than the reading.** -/
theorem le_taken (h : Munches L p (.start t) s) (hv : v ∈ L) (hfront : v <+: t) :
    v <+: s.taken :=
  h.isPrefix v hv hfront

theorem taken_append_left (h : Munches L p (.start t) s) : s.taken ++ s.left = t := by
  obtain ⟨w, hw, hleft⟩ := h.exists_read
  rw [hw]
  exact hleft.symm

/-- A reading that takes a word takes the longest. -/
theorem isLongest (h : Munches L p (.start t) s) (hmem : s.taken ∈ L) : IsLongest L t s.taken where
  mem := hmem
  isPrefix := ⟨s.left, h.taken_append_left⟩
  length_le _ hv hprefix := (h.le_taken hv hprefix).length_le

/-- A word that the grammar could not have gone on from is what is read. -/
theorem eq_taken (h : Munches L p (.start t) s) (hv : v ∈ L) {c : Char} {rest : Text}
    (hc : p c = false) (ht : t = v ++ c :: rest) : v = s.taken ∧ c :: rest = s.left := by
  have hprefix : v ++ [c] <+: t := ⟨rest, by rw [ht, List.append_assoc]; rfl⟩
  have htaken : s.taken = v := h.taken_eq v hv c hc hprefix
  have hleft : t = v ++ s.left := h.left_eq htaken
  exact ⟨htaken.symm, List.append_cancel_left (ht.symm.trans hleft)⟩

end Munches

/-- What is taken of a class that is seen. -/
theorem takeWhile_mem_many1 {r : Reading} {p : Char → Bool} (h : r.sees p = true) :
    r.left.takeWhile p ∈ many1 p := by
  obtain ⟨taken, left⟩ := r
  obtain ⟨c, left, rfl⟩ := List.exists_cons_of_ne_nil (Reading.left_ne_nil_of_sees h)
  have hc : p c = true := h
  refine ⟨?_, fun d hd => List.mem_takeWhile_imp hd⟩
  simp [hc]

/-! ## Characters of words -/

/-- The words of a grammar have characters of a class only. -/
def Within (q : Char → Bool) (L : Language Char) : Prop := ∀ w ∈ L, ∀ c ∈ w, q c = true

namespace Within

variable {L K : Language Char} {p q : Char → Bool}

theorem one (h : ∀ c, p c = true → q c = true) : Within q (one p) := by
  rintro w ⟨c, hc, rfl⟩ d hd
  obtain rfl := List.mem_singleton.mp hd
  exact h d hc

theorem many (h : ∀ c, p c = true → q c = true) : Within q (many p) :=
  fun _ hw c hc => h c (hw c hc)

theorem many1 (h : ∀ c, p c = true → q c = true) : Within q (many1 p) :=
  fun _ hw c hc => h c (hw.2 c hc)

theorem mul (hL : Within q L) (hK : Within q K) : Within q (L * K) := by
  intro w hw c hc
  obtain ⟨a, ha, x, hx, rfl⟩ := Language.mem_mul.mp hw
  rcases List.mem_append.mp hc with hmem | hmem
  · exact hL a ha c hmem
  · exact hK x hx c hmem

theorem add (hL : Within q L) (hK : Within q K) : Within q (L + K) := by
  rintro w (hw | hw)
  · exact hL w hw
  · exact hK w hw

theorem optional (hL : Within q L) : Within q (1 + L) := by
  rintro w (rfl | hw)
  · intro c hc
    contradiction
  · exact hL w hw

end Within

/-! ## Ends of words -/

/-- The words of a grammar are not empty and end with characters of a class. -/
def EndsWith (q : Char → Bool) (L : Language Char) : Prop :=
  ∀ w ∈ L, ∃ v c, w = v ++ [c] ∧ q c = true

namespace EndsWith

variable {L K : Language Char} {p q : Char → Bool}

theorem many1 (h : ∀ c, p c = true → q c = true) : EndsWith q (many1 p) := by
  rintro w ⟨hne, hw⟩
  refine ⟨w.dropLast, w.getLast hne, (List.dropLast_append_getLast hne).symm, ?_⟩
  exact h _ (hw _ (List.getLast_mem hne))

theorem mul (L : Language Char) (h : EndsWith q K) : EndsWith q (L * K) := by
  intro w hw
  obtain ⟨a, -, x, hx, rfl⟩ := Language.mem_mul.mp hw
  obtain ⟨v, c, rfl, hc⟩ := h x hx
  exact ⟨a ++ v, c, (List.append_assoc a v [c]).symm, hc⟩

theorem add (hL : EndsWith q L) (hK : EndsWith q K) : EndsWith q (L + K) := by
  rintro w (hw | hw)
  · exact hL w hw
  · exact hK w hw

theorem mul_optional (hL : EndsWith q L) (hK : EndsWith q K) : EndsWith q (L * (1 + K)) := by
  rw [mul_add, mul_one]
  exact hL.add (hK.mul L)

end EndsWith

end Grammar

end Lexis
