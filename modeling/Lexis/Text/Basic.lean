/-!
# Texts and byte offsets

A *text* is a list of characters. Its places are counted in bytes of its UTF-8 encoding, so a
place may fall inside a character; `Text.dropBytes?` and `Text.slice?` give nothing there.

* `Text.byteSize`: the number of bytes of a text, additive over `++`.
* `Text.dropBytes?_append`: the bytes of a front part lead to the rest.
* `Text.slice?_append`: a middle part is the slice between its two offsets.
* `Text.seek`: the text from the character at an offset on. `Text.seek_add` reaches an offset from
  an earlier one, and `Text.dropBytes?_eq_seek` says that a cut at an offset is a seek that ends at
  an edge.
-/

namespace Lexis

/-- A sequence of characters. -/
abbrev Text : Type := List Char

namespace Text

/-- The number of bytes of the UTF-8 encoding. -/
def byteSize : Text → Nat
  | [] => 0
  | c :: t => c.utf8Size + byteSize t

@[simp] theorem byteSize_nil : byteSize [] = 0 := rfl

@[simp] theorem byteSize_cons (c : Char) (t : Text) :
    byteSize (c :: t) = c.utf8Size + byteSize t := rfl

@[simp] theorem byteSize_append (s t : Text) : byteSize (s ++ t) = byteSize s + byteSize t := by
  induction s with
  | nil => simp
  | cons c s ih => simp [ih, Nat.add_assoc]

theorem length_le_byteSize (t : Text) : t.length ≤ byteSize t := by
  induction t with
  | nil => simp
  | cons c t ih =>
    have := c.utf8Size_pos
    simp only [List.length_cons, byteSize_cons]
    omega

theorem byteSize_pos {t : Text} (h : t ≠ []) : 0 < byteSize t := by
  cases t with
  | nil => exact absurd rfl h
  | cons c t =>
    have := c.utf8Size_pos
    simp only [byteSize_cons]
    omega

/-! ## Cutting at byte offsets -/

/-- What follows the first `n` bytes, if they are a whole number of characters. -/
def dropBytes? : Text → Nat → Option Text
  | t, 0 => some t
  | [], _ + 1 => none
  | c :: t, n + 1 => if c.utf8Size ≤ n + 1 then dropBytes? t (n + 1 - c.utf8Size) else none

/-- The first `n` bytes, if they are a whole number of characters. -/
def takeBytes? : Text → Nat → Option Text
  | _, 0 => some []
  | [], _ + 1 => none
  | c :: t, n + 1 =>
    if c.utf8Size ≤ n + 1 then (takeBytes? t (n + 1 - c.utf8Size)).map (c :: ·) else none

/-- The number of characters in the first `n` bytes, added to `count`, and what follows them, if the
bytes are a whole number of characters. -/
def passBytes? (count : Nat) : Text → Nat → Option (Nat × Text)
  | t, 0 => some (count, t)
  | [], _ + 1 => none
  | c :: t, n + 1 =>
    if c.utf8Size ≤ n + 1 then passBytes? (count + 1) t (n + 1 - c.utf8Size) else none

/-- The bytes from offset `start` up to offset `stop`, if both are edges of characters and in
order. -/
def slice? (t : Text) (start stop : Nat) : Option Text :=
  if start ≤ stop then (dropBytes? t start).bind (takeBytes? · (stop - start)) else none

@[simp] theorem dropBytes?_zero (t : Text) : dropBytes? t 0 = some t := by
  cases t <;> rfl

@[simp] theorem takeBytes?_zero (t : Text) : takeBytes? t 0 = some [] := by
  cases t <;> rfl

theorem passBytes?_eq (count : Nat) (t : Text) (n : Nat) :
    passBytes? count t n =
      (takeBytes? t n).bind fun s => (dropBytes? t n).map fun rest => (count + s.length, rest) := by
  induction t generalizing count n with
  | nil => cases n <;> simp [passBytes?, takeBytes?, dropBytes?]
  | cons c t ih =>
    cases n with
    | zero => simp [passBytes?]
    | succ n =>
      rw [passBytes?, takeBytes?, dropBytes?]
      split
      · rw [ih, Option.bind_map]
        congr 1
        funext s
        simp [Nat.add_assoc, Nat.add_comm 1]
      · rfl

/-- A text is its first bytes and what follows them. -/
theorem eq_append_of_takeBytes? {t s : Text} {n : Nat} (h : takeBytes? t n = some s) :
    ∃ rest, dropBytes? t n = some rest ∧ t = s ++ rest := by
  induction t generalizing s n with
  | nil =>
    cases n with
    | zero => exact ⟨[], rfl, by simpa [takeBytes?] using h⟩
    | succ n => simp [takeBytes?] at h
  | cons c t ih =>
    cases n with
    | zero => exact ⟨c :: t, rfl, by simpa [takeBytes?] using h⟩
    | succ n =>
      rw [takeBytes?] at h
      split at h
      · rename_i hc
        obtain ⟨u, hu, rfl⟩ := Option.map_eq_some_iff.mp h
        obtain ⟨rest, hrest, rfl⟩ := ih hu
        exact ⟨rest, by rw [dropBytes?, if_pos hc, hrest], rfl⟩
      · cases h

theorem dropBytes?_append (s t : Text) : dropBytes? (s ++ t) (byteSize s) = some t := by
  induction s with
  | nil => simp
  | cons c s ih =>
    have hc := c.utf8Size_pos
    obtain ⟨n, hn⟩ : ∃ n, c.utf8Size + byteSize s = n + 1 :=
      ⟨c.utf8Size + byteSize s - 1, by omega⟩
    rw [List.cons_append, byteSize_cons, hn, dropBytes?, if_pos (by omega)]
    rw [← hn, Nat.add_sub_cancel_left, ih]

theorem takeBytes?_append (s t : Text) : takeBytes? (s ++ t) (byteSize s) = some s := by
  induction s with
  | nil => simp
  | cons c s ih =>
    have hc := c.utf8Size_pos
    obtain ⟨n, hn⟩ : ∃ n, c.utf8Size + byteSize s = n + 1 :=
      ⟨c.utf8Size + byteSize s - 1, by omega⟩
    rw [List.cons_append, byteSize_cons, hn, takeBytes?, if_pos (by omega)]
    rw [← hn, Nat.add_sub_cancel_left, ih]
    rfl

theorem slice?_append (s u t : Text) :
    slice? (s ++ u ++ t) (byteSize s) (byteSize s + byteSize u) = some u := by
  rw [slice?, if_pos (by omega), List.append_assoc, dropBytes?_append]
  simp only [Option.bind_some, Nat.add_sub_cancel_left]
  exact takeBytes?_append u t

/-! ## Seeking an offset -/

/-- What follows the characters that end within the first `n` bytes, and how many of the `n` bytes
lie behind them: inside the next character, or past the end. -/
def seek : Text → Nat → Text × Nat
  | [], n => ([], n)
  | c :: t, n => if c.utf8Size ≤ n then seek t (n - c.utf8Size) else (c :: t, n)

@[simp] theorem seek_zero (t : Text) : seek t 0 = (t, 0) := by
  cases t with
  | nil => rfl
  | cons c t => exact if_neg (Nat.not_le.mpr c.utf8Size_pos)

/-- A later offset is reached from where an earlier one was found. -/
theorem seek_add (t : Text) (m n : Nat) :
    seek t (m + n) = seek (seek t m).1 ((seek t m).2 + n) := by
  induction t generalizing m with
  | nil => rfl
  | cons c t ih =>
    by_cases h : c.utf8Size ≤ m
    · rw [seek, if_pos (by omega), seek, if_pos h, ← ih]
      congr 1
      omega
    · rw [show seek (c :: t) m = (c :: t, m) from if_neg h]

theorem dropBytes?_eq_seek (t : Text) (n : Nat) :
    dropBytes? t n = if (seek t n).2 = 0 then some (seek t n).1 else none := by
  induction t generalizing n with
  | nil => cases n <;> simp [dropBytes?, seek]
  | cons c t ih =>
    cases n with
    | zero => simp
    | succ n =>
      rw [dropBytes?, seek]
      split
      · exact ih _
      · simp

/-- The offset that a seek ends at is not past the one that is sought. -/
theorem snd_seek_le (t : Text) (n : Nat) : (seek t n).2 ≤ n := by
  induction t generalizing n with
  | nil => exact Nat.le_refl n
  | cons c t ih =>
    rw [seek]
    split
    · exact Nat.le_trans (ih _) (Nat.sub_le _ _)
    · exact Nat.le_refl n

/-- A seek for the offset of the character that was found ends there. -/
theorem seek_sub_snd_seek (t : Text) (n : Nat) : seek t (n - (seek t n).2) = ((seek t n).1, 0) := by
  induction t generalizing n with
  | nil => simp [seek]
  | cons c t ih =>
    by_cases h : c.utf8Size ≤ n
    · have hle := snd_seek_le t (n - c.utf8Size)
      rw [show seek (c :: t) n = seek t (n - c.utf8Size) from if_pos h, seek, if_pos (by omega),
        ← ih]
      congr 1
      omega
    · rw [show seek (c :: t) n = (c :: t, n) from if_neg h, Nat.sub_self, seek_zero]

/-! ## Encoding -/

/-- The bytes of the UTF-8 encoding. -/
def encode (t : Text) : List UInt8 := t.flatMap String.utf8EncodeChar

@[simp] theorem encode_cons (c : Char) (t : Text) :
    encode (c :: t) = String.utf8EncodeChar c ++ encode t := by
  simp [encode]

@[simp] theorem encode_append (s t : Text) : encode (s ++ t) = encode s ++ encode t := by
  simp [encode]

theorem length_encode (t : Text) : (encode t).length = byteSize t := by
  induction t with
  | nil => rfl
  | cons c t ih => simp [ih, String.length_utf8EncodeChar]

/-- The bytes from an offset on are those of the text that a seek finds. -/
theorem drop_encode (t : Text) (n : Nat) :
    (encode t).drop n = (encode (seek t n).1).drop (seek t n).2 := by
  induction t generalizing n with
  | nil => rfl
  | cons c t ih =>
    rw [seek]
    split
    · rename_i h
      rw [← ih, encode_cons, List.drop_append, List.drop_eq_nil_of_le, List.nil_append,
        String.length_utf8EncodeChar]
      rwa [String.length_utf8EncodeChar]
    · rfl

/-- The first `n` bytes are those of the first `n` characters: a character has at least one. -/
theorem take_encode_take (t : Text) (n : Nat) :
    (encode (t.take n)).take n = (encode t).take n := by
  induction t generalizing n with
  | nil => simp
  | cons c t ih =>
    cases n with
    | zero => rfl
    | succ n =>
      have hc := c.utf8Size_pos
      rw [List.take_succ_cons, encode_cons, encode_cons, List.take_append, List.take_append,
        String.length_utf8EncodeChar]
      congr 1
      have := congrArg (List.take (n + 1 - c.utf8Size)) (ih n)
      rwa [List.take_take, List.take_take, Nat.min_eq_left (by omega)] at this

/-- A seek ends at the end of the text, with bytes left over, only for an offset past the end. -/
theorem seek_eq_past_iff (t : Text) (n : Nat) :
    (∃ k, seek t n = ([], k + 1)) ↔ byteSize t < n := by
  induction t generalizing n with
  | nil =>
    simp only [seek, Prod.mk.injEq, true_and, byteSize_nil]
    exact ⟨fun ⟨k, h⟩ => by omega, fun h => ⟨n - 1, by omega⟩⟩
  | cons c t ih =>
    rw [seek, byteSize_cons]
    split
    · rw [ih]
      omega
    · simp only [Prod.mk.injEq, reduceCtorEq, false_and, exists_false, false_iff]
      omega

/-- The text of a byte sequence, if it is the UTF-8 encoding of one. -/
def decode? (bytes : ByteArray) : Option Text := (String.fromUTF8? bytes).map String.toList

end Text

end Lexis
