import Lexis.Text.Quoted
import Lexis.Toml.Scalar

/-!
# Reading back what is written

Numbers in decimal digits and texts between double quotes can be read back, in front of whatever
follows them. A quoted text is read character by character: each escape can be told from all others
by its own front, and none starts with the closing quote.

* `Toml.Reader.Takes`: a reader takes a text off the front of every text that starts with it.
  `Toml.Reader.Takes.bind` puts two readers behind one another.
* `Toml.Read.ofDigits_toDigits`: the digits of a number are those of its value.
* `Toml.Reader.number_takes`, `Toml.Reader.integer_takes`: numbers up to the character behind them.
* `Quoted.quoted_takes`: a text between quotes, from how its single characters are read.
* `Quoted.readDisplay_takes`, `Quoted.readJson_takes`: both ways of quoting are read back, for every
  text, and `Quoted.not_mem_display`, `Quoted.not_mem_json` say that they keep to one line.
-/

namespace Lexis

namespace Toml

namespace Reader

variable {α β : Type}

/-! ## Readers that take a text -/

/-- The reader takes `front` off any text that starts with it, and gives `a`. -/
def Takes (r : Reader α) (front : Text) (a : α) : Prop :=
  ∀ rest, r (front ++ rest) = some (a, rest)

namespace Takes

theorem pure (a : α) : Takes (Pure.pure a : Reader α) [] a := fun _ => rfl

/-- **One behind the other**: what the second reader takes stands behind what the first takes. -/
theorem bind {r : Reader α} {f : α → Reader β} {s t : Text} {a : α} {b : β} (hr : r.Takes s a)
    (hf : (f a).Takes t b) : (r >>= f).Takes (s ++ t) b := by
  intro rest
  have hbind : (r >>= f) (s ++ t ++ rest) = (r (s ++ (t ++ rest))).bind fun p => f p.1 p.2 := by
    rw [List.append_assoc]
    rfl
  rw [hbind, hr]
  exact hf rest

theorem expect (front : Text) : (expect front).Takes front () := expect_append front

/-- A value that is there is given without taking anything. -/
theorem ofOption {a? : Option α} {a : α} (h : a? = some a) : (Read.ofOption a?).Takes [] a :=
  fun rest => by rw [h]; rfl

end Takes

/-- Takes the characters in front of the first `stop`, and the `stop`. -/
def upTo (stop : Char) : Reader Text := Read.upToQuote stop false

theorem upTo_takes {stop : Char} {s : Text} (h : stop ∉ s) : (upTo stop).Takes (s ++ [stop]) s := by
  intro rest
  induction s with
  | nil =>
    rw [upTo, List.nil_append, List.singleton_append, Read.upToQuote.eq_def]
    simp
  | cons c s ih =>
    obtain ⟨hc, hs⟩ := not_or.mp (mt List.mem_cons.mpr h)
    have hrest := ih hs
    rw [upTo] at hrest
    rw [upTo, List.cons_append, List.cons_append, Read.upToQuote.eq_def]
    simp only [Bool.false_and, Bool.false_eq_true, if_false, if_neg (Ne.symm hc), hrest,
      Option.map_some]

/-- Takes what stands in front of the first `stop` for the value that it spells, and the `stop`. -/
def valueUpTo (spelt? : Text → Option α) (stop : Char) : Reader α := do
  Read.ofOption (spelt? (← upTo stop))

theorem valueUpTo_takes {spelt? : Text → Option α} {stop : Char} {s : Text} {a : α}
    (h : spelt? s = some a) (hstop : stop ∉ s) : (valueUpTo spelt? stop).Takes (s ++ [stop]) a := by
  have hboth := (upTo_takes hstop).bind (f := fun s => Read.ofOption (spelt? s)) (.ofOption h)
  rwa [List.append_nil] at hboth

end Reader

/-! ## Numbers -/

namespace Read

theorem digitValue_digitChar : ∀ d < 16, digitValue (Nat.digitChar d) = d := by decide

theorem isHexadecimal_digitChar : ∀ d < 16, isHexadecimal (Nat.digitChar d) = true := by decide

/-- **The digits of a number** have its value. -/
theorem ofDigits_toDigits {base : Nat} (hlow : 1 < base) (hhigh : base ≤ 16) (n : Nat) :
    ofDigits base (Nat.toDigits base n) = n := by
  induction n using Nat.strongRecOn with
  | ind n ih =>
    by_cases hn : n < base
    · rw [Nat.toDigits_of_lt_base hn]
      simp [ofDigits, digitValue_digitChar n (by omega)]
    · have hmod : n % base < 16 := by
        have := Nat.mod_lt n (Nat.zero_lt_of_lt hlow)
        omega
      have hfront := ih (n / base) (Nat.div_lt_self (by omega) hlow)
      rw [ofDigits] at hfront
      rw [Nat.toDigits_of_base_le hlow (Nat.le_of_not_lt hn), ofDigits, List.foldl_append, hfront,
        List.foldl_cons, List.foldl_nil, digitValue_digitChar _ hmod]
      exact Nat.div_add_mod n base

/-- All of them are hexadecimal digits. -/
theorem isHexadecimal_of_mem_toDigits {base : Nat} (hlow : 1 < base) (hhigh : base ≤ 16) (n : Nat) :
    ∀ c ∈ Nat.toDigits base n, isHexadecimal c = true := by
  induction n using Nat.strongRecOn with
  | ind n ih =>
    intro c hc
    by_cases hn : n < base
    · rw [Nat.toDigits_of_lt_base hn] at hc
      obtain rfl := List.mem_singleton.mp hc
      exact isHexadecimal_digitChar n (by omega)
    · rw [Nat.toDigits_of_base_le hlow (Nat.le_of_not_lt hn)] at hc
      rcases List.mem_append.mp hc with hfront | hlast
      · exact ih (n / base) (Nat.div_lt_self (by omega) hlow) c hfront
      · obtain rfl := List.mem_singleton.mp hlast
        have hmod := Nat.mod_lt n (Nat.zero_lt_of_lt hlow)
        exact isHexadecimal_digitChar _ (by omega)

/-- A character is found by the digits of its code point. -/
theorem codePoint?_toDigits (c : Char) : codePoint? (Nat.toDigits 16 c.toNat) = some c := by
  have hall : (Nat.toDigits 16 c.toNat).all isHexadecimal = true :=
    List.all_eq_true.mpr (isHexadecimal_of_mem_toDigits (by omega) (by omega) c.toNat)
  have hvalid : c.toNat < 0xD800 ∨ (0xDFFF < c.toNat ∧ c.toNat < 0x110000) := c.valid
  simp only [codePoint?, ofDigits_toDigits (by omega : 1 < 16) (Nat.le_refl 16), hall,
    Bool.true_and, Bool.or_eq_true, Bool.and_eq_true, decide_eq_true_eq, if_pos hvalid,
    Char.ofNat_toNat]

end Read

namespace Reader

/-- The number with some decimal digits. -/
def number? (digits : Text) : Option Nat :=
  if digits ≠ [] ∧ digits.all Char.isDigit = true then some (Read.ofDigits 10 digits) else none

/-- The integer with some decimal digits, perhaps behind a minus. -/
def integer? (digits : Text) : Option Int :=
  if digits.head? = some '-' then (number? digits.tail).map fun n : Nat => -(n : Int)
  else (number? digits).map fun n : Nat => (n : Int)

theorem number?_toDigits (n : Nat) : number? (Nat.toDigits 10 n) = some n := by
  have hall : (Nat.toDigits 10 n).all Char.isDigit = true :=
    List.all_eq_true.mpr fun c hc => Nat.isDigit_of_mem_toDigits (by omega) (by omega) hc
  rw [number?, if_pos ⟨Nat.toDigits_ne_nil, hall⟩, Read.ofDigits_toDigits (by omega) (by omega)]

theorem toList_toString_nat (n : Nat) : (toString n).toList = Nat.toDigits 10 n := by
  rw [Nat.toString_eq_repr, Nat.toList_repr]

theorem not_mem_toString_nat {c : Char} (hc : c.isDigit = false) (n : Nat) :
    c ∉ (toString n).toList := by
  rw [toList_toString_nat]
  intro hmem
  rw [Nat.isDigit_of_mem_toDigits (by omega) (by omega) hmem] at hc
  contradiction

/-- **A number is read back** up to a character that is no digit. -/
theorem number_takes {stop : Char} (hstop : stop.isDigit = false) (n : Nat) :
    (valueUpTo number? stop).Takes ((toString n).toList ++ [stop]) n :=
  valueUpTo_takes (by rw [toList_toString_nat]; exact number?_toDigits n)
    (not_mem_toString_nat hstop n)

theorem integer?_toString (i : Int) : integer? (toString i).toList = some i := by
  rw [Int.toString_eq_repr, Int.repr_eq_if]
  by_cases hi : 0 ≤ i
  · have hhead : (Nat.toDigits 10 i.toNat).head? ≠ some '-' := by
      intro hminus
      have hdigit := Nat.isDigit_of_mem_toDigits (by omega) (by omega) (List.mem_of_head? hminus)
      exact absurd hdigit (by decide)
    rw [if_pos hi, Nat.toList_repr, integer?, if_neg hhead, number?_toDigits, Option.map_some,
      Int.toNat_of_nonneg hi]
  · rw [if_neg hi, String.toList_append, Nat.toList_repr]
    have hminus : ("-".toList ++ Nat.toDigits 10 (-i).toNat).head? = some '-' := rfl
    rw [integer?, if_pos hminus]
    have htail : ("-".toList ++ Nat.toDigits 10 (-i).toNat).tail = Nat.toDigits 10 (-i).toNat := rfl
    rw [htail, number?_toDigits, Option.map_some]
    congr 1
    omega

theorem not_mem_toString_int {c : Char} (hc : c.isDigit = false) (hminus : c ≠ '-') (i : Int) :
    c ∉ (toString i).toList := by
  rw [Int.toString_eq_repr, Int.repr_eq_if]
  split
  · exact not_mem_toString_nat hc _
  · rw [String.toList_append, List.mem_append, not_or]
    exact ⟨by simpa using hminus, not_mem_toString_nat hc _⟩

/-- **An integer is read back** up to a character that cannot be part of it. -/
theorem integer_takes {stop : Char} (hstop : stop.isDigit = false) (hminus : stop ≠ '-') (i : Int) :
    (valueUpTo integer? stop).Takes ((toString i).toList ++ [stop]) i :=
  valueUpTo_takes (integer?_toString i) (not_mem_toString_int hstop hminus i)

end Reader

end Toml

namespace Quoted

open Toml Toml.Reader

/-! ## Texts between quotes -/

/-- Takes characters as `item` reads them and the quote behind them. Each takes a character of the
text, so there are at most as many as `bound` has. -/
def chars (item : Reader Char) : (bound : Text) → Reader Text
  | [] => fun _ => none
  | _ :: bound => fun t =>
    if t.head? = some '"' then some ([], t.tail)
    else (do return (← item) :: (← chars item bound)) t

/-- Takes a text between quotes. -/
def quoted (item : Reader Char) : Reader Text := do
  expect ['"']
  fun t => chars item t t

/-- How characters are written between quotes: with a backslash in front, or as they are. -/
def Escapes (write : Char → Text) : Prop :=
  ∀ c, (∃ t, write c = '\\' :: t ∧ '\n' ∉ t) ∨ (write c = [c] ∧ c ≠ '"' ∧ c ≠ '\n')

section

variable {item : Reader Char} {write : Char → Text}

/-- None of them starts with the quote. -/
theorem Escapes.exists_cons (h : Escapes write) (c : Char) :
    ∃ d t, write c = d :: t ∧ d ≠ '"' := by
  obtain ⟨t, hwrite, -⟩ | ⟨hwrite, hquote, -⟩ := h c
  · exact ⟨_, t, hwrite, by decide⟩
  · exact ⟨c, [], hwrite, hquote⟩

/-- A text is written on one line. -/
theorem Escapes.not_mem (h : Escapes write) (s : Text) :
    '\n' ∉ '"' :: (s.flatMap write ++ ['"']) := by
  have hbody : '\n' ∉ s.flatMap write := by
    intro hmem
    obtain ⟨c, -, hc⟩ := List.mem_flatMap.mp hmem
    obtain ⟨t, hwrite, ht⟩ | ⟨hwrite, -, hfeed⟩ := h c
    · rw [hwrite] at hc
      exact ht (by simpa using hc)
    · rw [hwrite] at hc
      exact hfeed (List.mem_singleton.mp hc).symm
  simpa using hbody

/-- **Characters** that are read one by one are read together, up to the quote. -/
theorem chars_takes (hitem : ∀ c, item.Takes (write c) c) (hescapes : Escapes write) (s : Text)
    {bound : Text} (hbound : s.length < bound.length) :
    (chars item bound).Takes (s.flatMap write ++ ['"']) s := by
  induction s generalizing bound with
  | nil =>
    cases bound with
    | nil => contradiction
    | cons b bound => exact fun rest => rfl
  | cons c s ih =>
    cases bound with
    | nil => contradiction
    | cons b bound =>
      have hrest := ih (Nat.lt_of_succ_lt_succ hbound)
      have hboth : (do return (← item) :: (← chars item bound) : Reader Text).Takes
          (write c ++ (s.flatMap write ++ ['"'] ++ [])) (c :: s) :=
        (hitem c).bind (hrest.bind (.pure _))
      rw [List.append_nil, ← List.append_assoc, ← List.flatMap_cons] at hboth
      intro rest
      obtain ⟨d, t, hwrite, hd⟩ := hescapes.exists_cons c
      have hhead : ((c :: s).flatMap write ++ ['"'] ++ rest).head? ≠ some '"' := by
        rw [List.flatMap_cons, hwrite]
        simpa using hd
      exact (if_neg hhead).trans (hboth rest)

/-- **A text between quotes** is read back as its characters are. -/
theorem quoted_takes (hitem : ∀ c, item.Takes (write c) c) (hescapes : Escapes write) (s : Text) :
    (quoted item).Takes ('"' :: (s.flatMap write ++ ['"'])) s := by
  have hlength : s.length ≤ (s.flatMap write).length := by
    induction s with
    | nil => exact Nat.le_refl 0
    | cons c s ih =>
      obtain ⟨d, t, hwrite, -⟩ := hescapes.exists_cons c
      rw [List.flatMap_cons, hwrite, List.length_append, List.length_cons, List.length_cons]
      omega
  intro rest
  have hbound : s.length < (s.flatMap write ++ ['"'] ++ rest).length := by
    rw [List.length_append, List.length_append, List.length_singleton]
    omega
  exact chars_takes hitem hescapes s hbound rest

end

/-! ## Texts for a reader -/

/-- The character that a backslash and a letter stand for in a text for a reader. -/
def escaped? : Char → Option Char
  | '0' => some '\x00'
  | 't' => some '\t'
  | 'r' => some '\r'
  | 'n' => some '\n'
  | '\\' => some '\\'
  | '"' => some '"'
  | _ => none

/-- Takes a character as it stands in a text for a reader. -/
def displayed : Reader Char
  | [] => none
  | '\\' :: 'u' :: '{' :: t => valueUpTo Read.codePoint? '}' t
  | '\\' :: c :: t => (escaped? c).map (·, t)
  | c :: t => some (c, t)

/-- Takes a text for a reader. -/
def readDisplay : Reader Text := quoted displayed

theorem displayed_of_escaped {d c : Char} (hd : d ≠ 'u') (h : escaped? d = some c) :
    displayed.Takes ['\\', d] c := by
  intro rest
  have hstep : displayed ('\\' :: d :: rest) = (escaped? d).map (·, rest) := by
    rw [displayed]
    exact fun t hu _ => hd hu
  exact hstep.trans (by rw [h]; rfl)

theorem displayed_of_ne {c : Char} (h : c ≠ '\\') : displayed.Takes [c] c := by
  intro rest
  rw [List.singleton_append, displayed]
  · exact fun t ht _ => h ht
  · exact fun d t ht _ => h ht

/-- A code point is read back up to the brace behind it. -/
theorem displayed_codePoint (c : Char) : displayed.Takes (codePoint c) c := by
  have hbrace : '}' ∉ Nat.toDigits 16 c.toNat := fun hmem =>
    absurd (Read.isHexadecimal_of_mem_toDigits (by omega) (by omega) _ _ hmem) (by decide)
  exact fun rest => valueUpTo_takes (Read.codePoint?_toDigits c) hbrace rest

/-- **Every character is read back** from the way it is written for a reader. -/
theorem displayed_takes (c : Char) : displayed.Takes (escape '"' c) c := by
  rw [escape]
  split
  · rename_i h
    exact h ▸ displayed_of_escaped (by decide) rfl
  split
  · rename_i h
    exact h ▸ displayed_of_escaped (by decide) rfl
  split
  · rename_i h
    exact h ▸ displayed_of_escaped (by decide) rfl
  split
  · rename_i h
    exact h ▸ displayed_of_escaped (by decide) rfl
  split
  · rename_i h
    rcases h with rfl | rfl
    · exact displayed_of_escaped (by decide) rfl
    · exact displayed_of_escaped (by decide) rfl
  rename_i hplain
  split
  · exact displayed_of_ne fun h => hplain (.inl h)
  · exact displayed_codePoint c

theorem escapes_escape : Escapes (escape '"') := by
  intro c
  rw [escape]
  split
  · exact .inl ⟨_, rfl, by decide⟩
  split
  · exact .inl ⟨_, rfl, by decide⟩
  split
  · exact .inl ⟨_, rfl, by decide⟩
  split
  · exact .inl ⟨_, rfl, by decide⟩
  rename_i hfeed
  split
  · exact .inl ⟨_, rfl, by simpa using Ne.symm hfeed⟩
  rename_i hplain
  split
  · exact .inr ⟨rfl, fun h => hplain (.inr h), hfeed⟩
  · refine .inl ⟨_, rfl, ?_⟩
    have hdigits : '\n' ∉ Nat.toDigits 16 c.toNat := fun hmem =>
      absurd (Read.isHexadecimal_of_mem_toDigits (by omega) (by omega) _ _ hmem) (by decide)
    simpa using hdigits

/-- **Every text for a reader is read back**, -/
theorem readDisplay_takes (s : Text) : readDisplay.Takes (display s).toList s := by
  rw [display, String.toList_ofList]
  exact quoted_takes displayed_takes escapes_escape s

/-- and it is written on one line. -/
theorem not_mem_display (s : Text) : '\n' ∉ (display s).toList := by
  rw [display, String.toList_ofList]
  exact escapes_escape.not_mem s

/-! ## JSON strings -/

/-- Takes a character as it stands in a JSON string. -/
def unescapedJson : Reader Char
  | [] => none
  | '\\' :: 'u' :: a :: b :: c :: d :: t => (Read.codePoint? [a, b, c, d]).map (·, t)
  | '\\' :: c :: t => (Read.escape? c).map (·, t)
  | c :: t => some (c, t)

/-- Takes a JSON string. -/
def readJson : Reader Text := quoted unescapedJson

theorem unescapedJson_of_escape {d c : Char} (hd : d ≠ 'u') (h : Read.escape? d = some c) :
    unescapedJson.Takes ['\\', d] c := by
  intro rest
  have hstep : unescapedJson ('\\' :: d :: rest) = (Read.escape? d).map (·, rest) := by
    rw [unescapedJson]
    exact fun _ _ _ _ _ hu _ => hd hu
  exact hstep.trans (by rw [h]; rfl)

theorem unescapedJson_of_ne {c : Char} (h : c ≠ '\\') : unescapedJson.Takes [c] c := by
  intro rest
  rw [List.singleton_append, unescapedJson]
  · exact fun _ _ _ _ _ ht _ => h ht
  · exact fun d t ht _ => h ht

/-- The controls below the space have four digits, with which they are found. -/
theorem hex4_of_lt : ∀ n < 32, (hex4 n).length = 4 ∧ '\n' ∉ hex4 n ∧
    Read.codePoint? (hex4 n) = some (Char.ofNat n) := by
  decide

/-- A control is read back by its four digits. -/
theorem unescapedJson_hex4 {c : Char} (h : c.toNat < 0x20) :
    unescapedJson.Takes ('\\' :: 'u' :: hex4 c.toNat) c := by
  obtain ⟨hlength, -, hfound⟩ := hex4_of_lt c.toNat h
  rw [Char.ofNat_toNat] at hfound
  intro rest
  match hhex : hex4 c.toNat, hlength with
  | [x, y, z, w], _ =>
    rw [hhex] at hfound
    have hstep : unescapedJson ('\\' :: 'u' :: x :: y :: z :: w :: rest) =
        (Read.codePoint? [x, y, z, w]).map (·, rest) := by
      rw [unescapedJson]
    exact hstep.trans (by rw [hfound]; rfl)

/-- **Every character is read back** from the way it is written in a JSON string. -/
theorem unescapedJson_takes (c : Char) : unescapedJson.Takes (escapeJson c) c := by
  rw [escapeJson]
  split
  · rename_i h
    rcases h with rfl | rfl
    · exact unescapedJson_of_escape (by decide) rfl
    · exact unescapedJson_of_escape (by decide) rfl
  rename_i hplain
  split
  · rename_i h
    exact h ▸ unescapedJson_of_escape (by decide) rfl
  split
  · rename_i h
    exact h ▸ unescapedJson_of_escape (by decide) rfl
  split
  · rename_i h
    exact h ▸ unescapedJson_of_escape (by decide) rfl
  split
  · rename_i h
    exact h ▸ unescapedJson_of_escape (by decide) rfl
  split
  · rename_i h
    exact h ▸ unescapedJson_of_escape (by decide) rfl
  split
  · rename_i h
    exact unescapedJson_hex4 h
  · exact unescapedJson_of_ne fun h => hplain (.inr h)

theorem escapes_escapeJson : Escapes escapeJson := by
  intro c
  rw [escapeJson]
  split
  · rename_i h
    rcases h with rfl | rfl
    · exact .inl ⟨_, rfl, by decide⟩
    · exact .inl ⟨_, rfl, by decide⟩
  rename_i hplain
  split
  · exact .inl ⟨_, rfl, by decide⟩
  split
  · exact .inl ⟨_, rfl, by decide⟩
  split
  · exact .inl ⟨_, rfl, by decide⟩
  rename_i hfeed
  split
  · exact .inl ⟨_, rfl, by decide⟩
  split
  · exact .inl ⟨_, rfl, by decide⟩
  split
  · rename_i h
    exact .inl ⟨_, rfl, by simpa using (hex4_of_lt c.toNat h).2.1⟩
  · exact .inr ⟨rfl, fun h => hplain (.inl h), hfeed⟩

/-- **Every JSON string is read back**, -/
theorem readJson_takes (s : Text) : readJson.Takes (json s).toList s := by
  rw [json, String.toList_ofList]
  exact quoted_takes unescapedJson_takes escapes_escapeJson s

/-- and it is written on one line. -/
theorem not_mem_json (s : Text) : '\n' ∉ (json s).toList := by
  rw [json, String.toList_ofList]
  exact escapes_escapeJson.not_mem s

end Quoted

end Lexis
