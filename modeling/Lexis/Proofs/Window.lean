import Lexis.Proofs.Bounds

/-!
# Looking ahead by bytes

A cursor takes a short cut to the character some way ahead: as long as all bytes up to its place are
below 128, the byte at that place is the character. The short cut finds what counting characters
finds. A character is either one byte below 128 or starts with a byte that is not, so the places of
bytes and of characters are the same up to the first byte that is not below 128.

* `Text.encodeChar_cases`: the two kinds of characters.
* `Text.getElem?_encode_of_isAscii`: behind bytes below 128 a byte is a character.
* `Cursor.window?_of_offset`: the bytes that a cursor at the edge of a character looks at.
* `Cursor.Sees`: what a cursor sees ahead, and why its short cut is right. `Cursor.sees_of_isEdge`
  says that every cursor at the edge of a character sees so, however far it looks.
-/

namespace Lexis

open Cursor (isAscii)

/-! ## Bytes and characters -/

theorem Cursor.isAscii_iff (b : UInt8) : isAscii b = true ↔ b.toNat < 128 := by
  simp [isAscii, UInt8.lt_iff_toNat_lt]

namespace Text

/-- **A character is one byte below 128**, its code point, or starts with a byte that is not. -/
theorem encodeChar_cases (c : Char) :
    (∃ b, String.utf8EncodeChar c = [b] ∧ isAscii b = true ∧ Char.ofNat b.toNat = c) ∨
      ∃ b bs, String.utf8EncodeChar c = b :: bs ∧ isAscii b = false := by
  unfold String.utf8EncodeChar
  dsimp only
  split
  · rename_i hone
    refine .inl ⟨_, rfl, ?_, ?_⟩
    · rw [Cursor.isAscii_iff, UInt8.toNat_ofNat']
      omega
    · rw [UInt8.toNat_ofNat', Nat.mod_eq_of_lt (by omega)]
      exact Char.ofNat_toNat c
  · -- the first byte has the number of bytes in its upper bits, the highest of which is set
    have high (n : Nat) (hlow : 128 ≤ n) (hhigh : n < 256) : isAscii (UInt8.ofNat n) = false := by
      rw [← Bool.not_eq_true, Cursor.isAscii_iff, UInt8.toNat_ofNat']
      omega
    refine .inr ?_
    split
    · exact ⟨_, _, rfl, high _ (by omega) (by omega)⟩
    split
    · exact ⟨_, _, rfl, high _ (by omega) (by omega)⟩
    · exact ⟨_, _, rfl, high _ (by omega) (by omega)⟩

/-- The first byte of a text that is below 128 is its first character. -/
theorem exists_byte_of_isAscii {c : Char} {t : Text} {n : Nat}
    (h : ((encode (c :: t)).take (n + 1)).all isAscii = true) :
    ∃ b, String.utf8EncodeChar c = [b] ∧ Char.ofNat b.toNat = c ∧
      ((encode t).take n).all isAscii = true := by
  rcases encodeChar_cases c with ⟨b, hb, -, hc⟩ | ⟨b, bs, hb, hhigh⟩
  · rw [encode_cons, hb, List.singleton_append, List.take_succ_cons, List.all_cons,
      Bool.and_eq_true] at h
    exact ⟨b, hb, hc, h.2⟩
  · rw [encode_cons, hb, List.cons_append, List.take_succ_cons, List.all_cons, hhigh] at h
    contradiction

/-- **Behind bytes below 128 a byte is a character**: at the place `n` there is neither, or a byte
that is the whole of the character. -/
theorem getElem?_encode_of_isAscii {t : Text} {n : Nat}
    (h : ((encode t).take (n + 1)).all isAscii = true) :
    ((encode t)[n]? = none ∧ t[n]? = none) ∨
      ∃ b c, (encode t)[n]? = some b ∧ t[n]? = some c ∧ String.utf8EncodeChar c = [b] ∧
        Char.ofNat b.toNat = c := by
  induction n generalizing t with
  | zero =>
    cases t with
    | nil => exact .inl ⟨rfl, rfl⟩
    | cons c t =>
      obtain ⟨b, hb, hc, -⟩ := exists_byte_of_isAscii h
      exact .inr ⟨b, c, by rw [encode_cons, hb]; rfl, rfl, hb, hc⟩
  | succ n ih =>
    cases t with
    | nil => exact .inl ⟨rfl, rfl⟩
    | cons c t =>
      obtain ⟨b, hb, -, hrest⟩ := exists_byte_of_isAscii h
      rw [encode_cons, hb, List.singleton_append, List.getElem?_cons_succ,
        List.getElem?_cons_succ]
      exact ih hrest

end Text

namespace Cursor

/-! ## What a cursor looks at -/

/-- At the edge of a character a cursor looks at the first bytes of what remains. -/
theorem window?_of_offset {c : Cursor} {front rest : Text} (hsource : c.source = front ++ rest)
    (hoffset : c.mark.offset = Text.byteSize front) (n : Nat) :
    c.window? n = some ((Text.encode rest).take n) := by
  have hle : c.mark.offset ≤ Text.byteSize c.source := by
    rw [hoffset, hsource]
    exact Text.byteSize_le_append front rest
  rw [window?_eq, if_pos hle, hsource, hoffset, Text.encode_append, ← Text.length_encode,
    List.drop_left]

/-- The cursor, in front of `rest`, sees the character `n` characters ahead. -/
structure Sees (c : Cursor) (rest : Text) (n : Nat) : Prop where
  /-- The answer is the character at the place `n` of what remains, or that there is none. -/
  peek_eq : c.peek n = .ok rest[n]?
  /-- The bytes looked at for the short cut are the first of what remains. -/
  window?_eq : c.window? (n + 1) = some ((Text.encode rest).take (n + 1))
  /-- Where all of them are below 128, the last is no part of a character of several bytes: it is
  the whole of the character at the place `n`. -/
  whole : ((Text.encode rest).take (n + 1)).all isAscii = true → ∀ b,
    ((Text.encode rest).take (n + 1))[n]? = some b →
      ∃ char, rest[n]? = some char ∧ Text.encode [char] = [b]
  /-- Where they end too early and all are below 128, nothing that is not has been left out: they
  are all that remains, which has no character at the place `n`. -/
  ended : ((Text.encode rest).take (n + 1)).all isAscii = true →
    ((Text.encode rest).take (n + 1))[n]? = none →
      rest.length ≤ n ∧ (Text.encode rest).all isAscii = true

theorem sees_of_offset {c : Cursor} {front rest : Text} (hsource : c.source = front ++ rest)
    (hoffset : c.mark.offset = Text.byteSize front) (n : Nat) : c.Sees rest n := by
  have hwindow := window?_of_offset hsource hoffset (n + 1)
  have hlast : ((Text.encode rest).take (n + 1))[n]? = (Text.encode rest)[n]? :=
    List.getElem?_take_of_lt (Nat.lt_succ_self n)
  refine ⟨?_, hwindow, ?_, ?_⟩
  · rw [peek, hwindow]
    dsimp only
    split
    · -- the short cut
      rename_i hascii
      rw [hlast]
      obtain ⟨hbyte, hchar⟩ | ⟨b, char, hbyte, hchar, -, heq⟩ :=
        Text.getElem?_encode_of_isAscii hascii
      · rw [hbyte, hchar]
        rfl
      · rw [hbyte, hchar, ← heq]
        rfl
    · rw [peekSlow, remaining_of_offset hsource hoffset]
      rfl
  · intro hascii b hb
    rw [hlast] at hb
    obtain ⟨hbyte, -⟩ | ⟨b', char, hbyte, hchar, hencode, -⟩ :=
      Text.getElem?_encode_of_isAscii hascii
    · rw [hbyte] at hb
      contradiction
    · obtain rfl : b' = b := Option.some.inj (hbyte.symm.trans hb)
      exact ⟨char, hchar, by rw [Text.encode_cons, hencode]; rfl⟩
  · intro hascii hnone
    rw [hlast] at hnone
    obtain ⟨-, hchar⟩ | ⟨b, char, hbyte, -⟩ := Text.getElem?_encode_of_isAscii hascii
    · refine ⟨List.getElem?_eq_none_iff.mp hchar, ?_⟩
      rwa [List.take_of_length_le (by have := List.getElem?_eq_none_iff.mp hnone; omega)] at hascii
    · rw [hbyte] at hnone
      contradiction

/-- **Looking ahead is exact**: at the edge of a character a cursor has the text behind that place
in front of it, and sees each of its characters and that there are no others, however far it
looks. -/
theorem sees_of_isEdge {c : Cursor} (h : Text.IsEdge c.source c.mark.offset) :
    ∃ front rest, c.source = front ++ rest ∧ Text.byteSize front = c.mark.offset ∧
      c.remaining = .ok rest ∧ ∀ n, c.Sees rest n := by
  obtain ⟨front, rest, hsource, hsize⟩ := h
  exact ⟨front, rest, hsource, hsize, remaining_of_offset hsource hsize.symm,
    sees_of_offset hsource hsize.symm⟩

/-- In front of a letter, a character of two bytes and a quote: the letter is found by its byte, the
quote by counting, and there is no fourth character although there is a fourth byte. -/
theorem sees_of_isEdge_mixed :
    Text.IsEdge ['é', 'a', 'é', '\''] 2 ∧
      ∃ c : Cursor, c.source = ['é', 'a', 'é', '\''] ∧ c.mark.offset = 2 ∧
        c.Sees ['a', 'é', '\''] 0 ∧ c.peek 2 = .ok (some '\'') ∧ c.peek 3 = .ok none := by
  have hedge : Text.IsEdge ['é', 'a', 'é', '\''] 2 := by decide
  let c : Cursor := { source := ['é', 'a', 'é', '\''], mark := ⟨2, 1, 1⟩ }
  obtain ⟨front, rest, -, -, hremaining, hsees⟩ := sees_of_isEdge (c := c) hedge
  obtain rfl : ['a', 'é', '\''] = rest := Except.ok.inj hremaining
  exact ⟨hedge, c, rfl, rfl, hsees 0, (hsees 2).peek_eq, (hsees 3).peek_eq⟩

end Cursor

end Lexis
