import Lexis.Proofs.Choice

/-!
# Readings side by side

A rule reads its text from the front, so on two texts that differ in their ends only it does the
same until it meets the end. What it does there depends on what the text goes on with. Here two
readings are followed side by side through the steps that the rules are made of.

* `Text.Curbs`: what a text goes on with, up to three characters of a line, another one goes on with
  too. The empty text is curbed by every text.
* `Scan.onto`: an outcome in front of another text.
* `Reading.Twin`: two readings of texts that differ in their ends only. Both take the same as long
  as the first does not get to its end.
* `Rule.Steady`: a rule that takes the same from a twin. Rules that look one character ahead are put
  together from steady parts.
-/

namespace Lexis

/-! ## What a text offers -/

/-- Whatever `t` starts with, up to three characters of a line, `s` starts with too. -/
def Text.Curbs (s t : Text) : Prop :=
  ∀ x : Text, x.length ≤ 3 → '\n' ∉ x → '\r' ∉ x → x <+: t → x <+: s

/-- What a text starts with is a part of its front or goes on behind it. -/
theorem Text.isPrefix_append_cases {x front t : Text} (h : x <+: front ++ t) :
    x <+: front ∨ ∃ y, x = front ++ y ∧ y <+: t := by
  rcases List.prefix_or_prefix_of_prefix h (List.prefix_append front t) with hx | ⟨y, rfl⟩
  · exact .inl hx
  · exact .inr ⟨y, rfl, (List.prefix_append_right_inj front).mp h⟩

namespace Text.Curbs

variable {s t : Text}

/-- Behind the same text the one offers no more than the other. -/
theorem append (h : s.Curbs t) (front : Text) : Text.Curbs (front ++ s) (front ++ t) := by
  intro x hlength hn hr hx
  rcases isPrefix_append_cases hx with hfront | ⟨y, rfl, hy⟩
  · exact hfront.trans (List.prefix_append front s)
  · rw [List.length_append] at hlength
    refine (List.prefix_append_right_inj front).mpr (h y (by omega) ?_ ?_ hy)
    · exact fun hmem => hn (List.mem_append_right _ hmem)
    · exact fun hmem => hr (List.mem_append_right _ hmem)

/-- A character that code can go on with is offered by both. -/
theorem head (h : s.Curbs t) {p : Char → Bool} (hn : p '\n' = false) (hr : p '\r' = false)
    (ht : t.head?.any p = true) : s.head?.any p = true := by
  cases t with
  | nil => contradiction
  | cons c t =>
    have hc : p c = true := ht
    have hcn : '\n' ≠ c := (ne_of_class hc hn).symm
    have hcr : '\r' ≠ c := (ne_of_class hc hr).symm
    obtain ⟨rest, rfl⟩ := h [c] (by simp) (by simpa using hcn) (by simpa using hcr) (by simp)
    exact ht

end Text.Curbs

/-! ## Another text behind what is read -/

/-- What was taken, in front of another text. -/
def Reading.onto (r : Reading) (rest : Text) : Reading := ⟨r.taken, rest⟩

/-- The outcome, in front of another text. -/
def Scan.onto (s : Scan) (rest : Text) : Scan := { s with reading := s.reading.onto rest }

namespace Reading

theorem left_skip_suffix (r : Reading) (n : Nat) : (r.skip n).left <:+ r.left :=
  List.drop_suffix n r.left

theorem left_takeWhile_suffix (r : Reading) (p : Char → Bool) : (r.takeWhile p).left <:+ r.left :=
  List.dropWhile_suffix p

/-- A class that does not take the next character takes nothing. -/
theorem takeWhile_of_head {p : Char → Bool} {t : Text} (h : t.head?.any p = false) :
    t.takeWhile p = [] ∧ t.dropWhile p = t := by
  cases t with
  | nil => exact ⟨rfl, rfl⟩
  | cons c t =>
    have hc : p c = false := h
    simp [hc]

/-- A class that leaves all of a text does not take its first character. -/
theorem head_of_suffix_dropWhile {p : Char → Bool} {t : Text} (h : t <:+ t.dropWhile p) :
    t.head?.any p = false := by
  cases t with
  | nil => rfl
  | cons c t =>
    cases hc : p c with
    | false => simp [hc]
    | true =>
      have hle := h.length_le
      have hle' := (List.dropWhile_suffix (l := t) p).length_le
      simp only [List.dropWhile_cons, hc, if_true, List.length_cons] at hle
      omega

/-- Where a class stops within the front of a text, it stops for every other end that the class does
not go on with. -/
theorem exists_takeWhile_append {p : Char → Bool} {rest rest' : Text} (middle : Text)
    (hhead : rest'.head?.any p = true → rest.head?.any p = true)
    (hstay : rest <:+ (middle ++ rest).dropWhile p) :
    ∃ front back, (middle ++ rest).takeWhile p = front ∧
      (middle ++ rest).dropWhile p = back ++ rest ∧
      (middle ++ rest').takeWhile p = front ∧ (middle ++ rest').dropWhile p = back ++ rest' := by
  induction middle with
  | nil =>
    have hrest := head_of_suffix_dropWhile hstay
    have hrest' : rest'.head?.any p = false := by
      rw [← Bool.not_eq_true]
      intro hpos
      rw [hhead hpos] at hrest
      contradiction
    obtain ⟨htake, hdrop⟩ := takeWhile_of_head hrest
    obtain ⟨htake', hdrop'⟩ := takeWhile_of_head hrest'
    exact ⟨[], [], htake, hdrop, htake', hdrop'⟩
  | cons c middle ih =>
    cases hc : p c with
    | false => exact ⟨[], c :: middle, by simp [hc], by simp [hc], by simp [hc], by simp [hc]⟩
    | true =>
      simp only [List.cons_append, List.dropWhile_cons, hc, if_true] at hstay
      obtain ⟨front, back, htake, hdrop, htake', hdrop'⟩ := ih hstay
      refine ⟨c :: front, back, ?_, ?_, ?_, ?_⟩
      · simp [hc, htake]
      · simp [hc, hdrop]
      · simp [hc, htake']
      · simp [hc, hdrop']

/-- The readings have taken the same, and what they have in front of them differs in its end only,
which is `rest` for the first and `rest'` for the second. -/
structure Twin (rest rest' : Text) (r r' : Reading) : Prop where
  taken_eq : r'.taken = r.taken
  left_eq : ∃ middle, r.left = middle ++ rest ∧ r'.left = middle ++ rest'

theorem twin_start (front rest rest' : Text) :
    Twin rest rest' (start (front ++ rest)) (start (front ++ rest')) :=
  ⟨rfl, front, rfl, rfl⟩

namespace Twin

variable {rest rest' : Text} {r r' : Reading}

/-- At the end the second reading is the first in front of the other text. -/
theorem eq_onto (h : Twin rest rest' r r') (hleft : r.left = rest) : r' = r.onto rest' := by
  obtain ⟨middle, hr, hr'⟩ := h.left_eq
  obtain rfl : middle = [] := by
    rw [hleft] at hr
    exact List.self_eq_append_left.mp hr
  cases r'
  simp only [Reading.onto, Reading.mk.injEq]
  exact ⟨h.taken_eq, hr'⟩

/-- Characters that are taken by the first reading before its end are taken by the second. -/
theorem skip (h : Twin rest rest' r r') {n : Nat} (hn : n ≤ r.left.length)
    (hstay : rest <:+ (r.skip n).left) : Twin rest rest' (r.skip n) (r'.skip n) := by
  obtain ⟨middle, hr, hr'⟩ := h.left_eq
  have hle : n ≤ middle.length := by
    have := hstay.length_le
    simp only [Reading.skip, List.length_drop, hr, List.length_append] at this hn
    omega
  refine ⟨?_, middle.drop n, ?_, ?_⟩
  · simp only [Reading.skip, h.taken_eq, hr, hr', List.take_append_of_le_length hle]
  · simp only [Reading.skip, hr, List.drop_append_of_le_length hle]
  · simp only [Reading.skip, hr', List.drop_append_of_le_length hle]

/-- What the first reading has in front of it before its end, the second has too, -/
theorem isPrefix (h : Twin rest rest' r r') {x : Text} (hx : x <+: r.left)
    (hstay : rest <:+ (r.skip x.length).left) : x <+: r'.left := by
  obtain ⟨middle, hr, hr'⟩ := h.left_eq
  have hle : x.length ≤ middle.length := by
    have hlength := hx.length_le
    have := hstay.length_le
    simp only [Reading.skip, List.length_drop, hr, List.length_append] at this hlength
    omega
  rw [hr] at hx
  rw [hr']
  exact (List.prefix_of_prefix_length_le hx (List.prefix_append _ _) hle).trans
    (List.prefix_append _ _)

/-- and up to three characters of a line that the second has in front of it the first has too. -/
theorem isPrefix_of_curbs (h : Twin rest rest' r r') (hcurbs : rest.Curbs rest') {x : Text}
    (hlength : x.length ≤ 3) (hn : '\n' ∉ x) (hr : '\r' ∉ x) (hx : x <+: r'.left) :
    x <+: r.left := by
  obtain ⟨middle, hleft, hleft'⟩ := h.left_eq
  rw [hleft'] at hx
  rw [hleft]
  exact hcurbs.append middle x hlength hn hr hx

/-- What the first reading sees and takes before its end the second sees, and no more. -/
theorem sees_eq (h : Twin rest rest' r r') (hcurbs : rest.Curbs rest') {p : Char → Bool}
    (hn : p '\n' = false) (hr : p '\r' = false)
    (hstay : r.sees p = true → rest <:+ (r.skip 1).left) : r'.sees p = r.sees p := by
  obtain ⟨middle, hleft, hleft'⟩ := h.left_eq
  cases middle with
  | cons c middle => simp [sees, hleft, hleft']
  | nil =>
    rw [List.nil_append] at hleft hleft'
    have hfalse : r.sees p = false := by
      cases hsees : r.sees p with
      | false => rfl
      | true =>
        have hle := (hstay hsees).length_le
        cases rest with
        | nil => simp [sees, hleft] at hsees
        | cons c rest =>
          simp only [Reading.skip, hleft, List.drop_one, List.tail_cons, List.length_cons] at hle
          omega
    rw [hfalse, ← Bool.not_eq_true]
    intro hsees
    rw [sees, hleft'] at hsees
    rw [sees, hleft, hcurbs.head hn hr hsees] at hfalse
    contradiction

/-- A class that stops before the end of the first reading stops there for the second. -/
theorem takeWhile (h : Twin rest rest' r r') (hcurbs : rest.Curbs rest') {p : Char → Bool}
    (hn : p '\n' = false) (hr : p '\r' = false) (hstay : rest <:+ (r.takeWhile p).left) :
    Twin rest rest' (r.takeWhile p) (r'.takeWhile p) := by
  obtain ⟨middle, hleft, hleft'⟩ := h.left_eq
  simp only [Reading.takeWhile, hleft] at hstay
  obtain ⟨front, back, htake, hdrop, htake', hdrop'⟩ :=
    exists_takeWhile_append middle (hcurbs.head hn hr) hstay
  refine ⟨?_, back, ?_, ?_⟩
  · simp only [Reading.takeWhile, h.taken_eq, hleft, hleft', htake, htake']
  · simp only [Reading.takeWhile, hleft, hdrop]
  · simp only [Reading.takeWhile, hleft', hdrop']

end Twin

end Reading

/-- A character that the first reading sees and takes before its end is taken by the second. -/
theorem Reading.Twin.skip_one {rest rest' : Text} {r r' : Reading} (h : r.Twin rest rest' r')
    {p : Char → Bool} (hsees : r.sees p = true) (hstay : rest <:+ (r.skip 1).left) :
    (r.skip 1).Twin rest rest' (r'.skip 1) := by
  refine h.skip ?_ hstay
  cases hleft : r.left with
  | nil => simp [sees, hleft] at hsees
  | cons c t => simp

/-- A class that takes the next character goes on behind it. -/
theorem Reading.takeWhile_of_sees {r : Reading} {p : Char → Bool} (h : r.sees p = true) :
    r.takeWhile p = (r.skip 1).takeWhile p := by
  cases hleft : r.left with
  | nil => simp [sees, hleft] at h
  | cons c t =>
    have hc : p c = true := by simpa [sees, hleft] using h
    simp [takeWhile, skip, hleft, hc]

/-! ## Rules that look one character ahead -/

/-- A rule that goes on from a reading takes the same from a twin of it, if it gives a lexeme and
nothing of the end is taken. -/
structure Rule.Steady (f : Reading → Scan) : Prop where
  /-- Nothing is given back. -/
  left_suffix : ∀ r, (f r).reading.left <:+ r.left
  /-- The twin has the same outcome. -/
  eq_onto : ∀ {rest rest' : Text} {r r' : Reading}, rest.Curbs rest' → r.Twin rest rest' r' →
    (f r).reading.left = rest → (∃ lexeme, (f r).result = .ok lexeme) → f r' = (f r).onto rest'

namespace Rule.Steady

open Reading Scan

variable {p : Char → Bool} {f g : Reading → Scan}

/-- All that is read is the text of a lexeme. -/
theorem accept (kind : Text → Kind) (visible : Bool) :
    Steady fun r => Scan.accept (kind r.taken) visible r where
  left_suffix r := List.suffix_rfl
  eq_onto _ htwin hleft _ := by
    rw [htwin.eq_onto hleft]
    rfl

theorem reject (cause : Cause) : Steady (Scan.reject cause) where
  left_suffix r := List.suffix_rfl
  eq_onto := by
    rintro _ _ _ _ _ _ _ ⟨_, ⟨⟩⟩

/-- Characters of a class are taken first. -/
theorem takeWhile (hf : Steady f) (hp : p '\n' = false ∧ p '\r' = false) :
    Steady fun r => f (r.takeWhile p) where
  left_suffix r := (hf.left_suffix _).trans (r.left_takeWhile_suffix p)
  eq_onto hcurbs htwin hleft hok :=
    hf.eq_onto hcurbs
      (htwin.takeWhile hcurbs hp.1 hp.2 (hleft ▸ hf.left_suffix _)) hleft hok

/-- A character of a class decides how to go on, and is taken. -/
theorem ite (hf : Steady f) (hg : Steady g) (hp : p '\n' = false ∧ p '\r' = false) :
    Steady fun r => if r.sees p then f (r.skip 1) else g r where
  left_suffix r := by
    split
    · exact (hf.left_suffix _).trans (r.left_skip_suffix 1)
    · exact hg.left_suffix r
  eq_onto := by
    intro rest rest' r r' hcurbs htwin hleft hok
    have hstay : r.sees p = true → rest <:+ (r.skip 1).left := by
      intro hsees
      rw [if_pos hsees] at hleft
      exact hleft ▸ hf.left_suffix _
    rw [htwin.sees_eq hcurbs hp.1 hp.2 hstay]
    by_cases hsees : r.sees p = true
    · rw [if_pos hsees] at hleft hok ⊢
      rw [if_pos hsees]
      exact hf.eq_onto hcurbs (htwin.skip_one hsees (hstay hsees)) hleft hok
    · rw [if_neg hsees] at hleft hok ⊢
      rw [if_neg hsees]
      exact hg.eq_onto hcurbs htwin hleft hok

/-- At least one character of a class is taken, or it is gone on otherwise. -/
theorem ite_takeWhile (hf : Steady f) (hg : Steady g) (hp : p '\n' = false ∧ p '\r' = false) :
    Steady fun r => if r.sees p then f (r.takeWhile p) else g r := by
  have heq : (fun r : Reading => if r.sees p then f (r.takeWhile p) else g r) =
      fun r => if r.sees p then f ((r.skip 1).takeWhile p) else g r := by
    funext r
    split
    · rw [takeWhile_of_sees (by assumption)]
    · rfl
  rw [heq]
  exact ite (hf.takeWhile hp) hg hp

end Rule.Steady

end Lexis
