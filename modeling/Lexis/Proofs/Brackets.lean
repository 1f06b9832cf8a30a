import Mathlib.Data.List.Infix
import Mathlib.Order.Bounds.Basic
import Lexis.Proofs.Accounting

/-!
# Counting brackets

A lexer counts brackets with a depth that does not go below zero and a count of the closing brackets
that came at depth zero. Both can be read off the tokens alone: the count is the greatest number by
which closing brackets outnumber opening ones in some beginning of the tokens, and the depth is what
that count leaves of the balance.

* `Token.depth`: the number of open brackets behind some tokens.
* `Token.excess`, `Token.excesses`: by how much closing brackets outnumber opening ones, over all
  tokens and over each of their beginnings.
* `Token.isGreatest_excesses`, `Token.depth_eq`: the two counts in closed form.
* `Context.Counts`: a context has counted the brackets of some tokens. `Context.Counts.after` is one
  more token.
-/

namespace Lexis

/-- What a token makes of the depth: a closing bracket takes one away, unless none is open. -/
theorem Kind.depthAfter_eq (kind : Kind) (depth : Nat) :
    (kind.depthAfter depth : Int) = depth + (if kind.opens then 1 else 0) -
      (if kind.closes then 1 else 0) +
      (if kind.closes = true ∧ depth = 0 then 1 else 0 : Nat) := by
  unfold depthAfter
  cases hopens : kind.opens with
  | true => simp [closes_eq_false_of_opens hopens]
  | false =>
    cases hcloses : kind.closes with
    | false => simp
    | true =>
      cases depth with
      | zero => rfl
      | succ depth => simp

theorem Kind.depthAfter_zero_of_closes {kind : Kind} (h : kind.closes = true) :
    kind.depthAfter 0 = 0 := by
  unfold depthAfter
  split
  · rename_i hopens
    simp [closes_eq_false_of_opens hopens] at h
  · simp

namespace Token

/-- The number of open brackets behind some tokens, where `depth` are open in front of them. -/
def depthFrom (depth : Nat) (ts : List Token) : Nat :=
  ts.foldl (fun depth t => t.kind.depthAfter depth) depth

/-- The number of open brackets behind some tokens: an opening one adds one, a closing one takes one
away if there is one. -/
def depth (ts : List Token) : Nat := depthFrom 0 ts

/-- The number of opening brackets among some tokens. -/
def openers (ts : List Token) : Nat := ts.countP (·.kind.opens)

/-- The number of closing brackets among some tokens. -/
def closers (ts : List Token) : Nat := ts.countP (·.kind.closes)

/-- By how much closing brackets outnumber opening ones. -/
def excess (ts : List Token) : Int := closers ts - openers ts

/-- By how much closing brackets outnumber opening ones in the beginnings of some tokens, the empty
one included. -/
def excesses (ts : List Token) : Set Int := {d | ∃ front, front <+: ts ∧ excess front = d}

/-! ## One more token -/

theorem depth_concat (ts : List Token) (t : Token) :
    depth (ts ++ [t]) = t.kind.depthAfter (depth ts) := by
  simp [depth, depthFrom]

theorem strayClosers_append (depth : Nat) (ts us : List Token) :
    strayClosers depth (ts ++ us) =
      strayClosers depth ts ++ strayClosers (depthFrom depth ts) us := by
  induction ts generalizing depth with
  | nil => rfl
  | cons t ts ih =>
    rw [List.cons_append, strayClosers, strayClosers, ih]
    split <;> rfl

theorem length_strayClosers_concat (ts : List Token) (t : Token) :
    (strayClosers 0 (ts ++ [t])).length =
      (strayClosers 0 ts).length + if t.kind.closes = true ∧ depth ts = 0 then 1 else 0 := by
  rw [strayClosers_append, List.length_append, strayClosers, strayClosers, ← depth]
  split <;> rfl

theorem excess_concat (ts : List Token) (t : Token) :
    excess (ts ++ [t]) = excess ts + (if t.kind.closes then 1 else 0) -
      (if t.kind.opens then 1 else 0) := by
  simp only [excess, closers, openers, List.countP_append, List.countP_singleton]
  split <;> split <;> omega

/-- The beginnings of a longer list are those of the shorter and the list itself. -/
theorem excesses_concat (ts : List Token) (t : Token) :
    excesses (ts ++ [t]) = insert (excess (ts ++ [t])) (excesses ts) := by
  ext d
  simp only [excesses, Set.mem_ofPred_eq, Set.mem_insert_iff, List.prefix_concat_iff]
  constructor
  · rintro ⟨front, rfl | hfront, rfl⟩
    · exact .inl rfl
    · exact .inr ⟨front, hfront, rfl⟩
  · rintro (rfl | ⟨front, hfront, rfl⟩)
    · exact ⟨_, .inl rfl, rfl⟩
    · exact ⟨front, .inr hfront, rfl⟩

/-! ## The counts in closed form -/

/-- **The depth is the balance of the brackets, raised by the stray closing ones.** -/
theorem depth_eq (ts : List Token) :
    (depth ts : Int) = openers ts - closers ts + (strayClosers 0 ts).length := by
  have h : (depth ts : Int) = (strayClosers 0 ts).length - excess ts := by
    induction ts using List.reverseRecOn with
    | nil => rfl
    | append_singleton ts t ih =>
      rw [depth_concat, Kind.depthAfter_eq, length_strayClosers_concat, excess_concat, ih]
      omega
  rw [h, excess]
  omega

/-- A token raises the number of stray closing brackets to its excess, if that is greater. -/
theorem length_strayClosers_concat_eq_max (ts : List Token) (t : Token) :
    ((strayClosers 0 (ts ++ [t])).length : Int) =
      max (excess (ts ++ [t])) (strayClosers 0 ts).length := by
  have hdepth := depth_eq (ts ++ [t])
  have hlength := length_strayClosers_concat ts t
  rw [excess]
  split at hlength
  · rename_i hstray
    -- behind a stray bracket the depth is zero, so the excess is the number of stray brackets
    have hzero : depth (ts ++ [t]) = 0 := by
      rw [depth_concat, hstray.2, Kind.depthAfter_zero_of_closes hstray.1]
    omega
  · -- otherwise the depth, which is not negative, keeps the excess below that number
    omega

/-- **The number of stray closing brackets** is the greatest excess of closing brackets. -/
theorem isGreatest_excesses (ts : List Token) :
    IsGreatest (excesses ts) ((strayClosers 0 ts).length : Int) := by
  induction ts using List.reverseRecOn with
  | nil =>
    refine ⟨⟨[], List.prefix_refl _, rfl⟩, ?_⟩
    rintro _ ⟨front, hfront, rfl⟩
    rw [List.prefix_nil.mp hfront]
    exact Int.le_refl _
  | append_singleton ts t ih =>
    rw [excesses_concat, length_strayClosers_concat_eq_max]
    exact ih.insert _

end Token

/-! ## The counts of a context -/

/-- The context has counted the brackets of the tokens. -/
structure Context.Counts (ts : List Token) (x : Context) : Prop where
  depth_eq : x.depth = Token.depth ts
  unmatchedClosers_eq : x.unmatchedClosers = (Token.strayClosers 0 ts).length

theorem Context.Counts.after {ts : List Token} {x y : Context} (h : x.Counts ts) {t : Token}
    (hafter : x.after t.kind = .ok y) : y.Counts (ts ++ [t]) := by
  rw [Context.after_eq_ok hafter]
  refine ⟨?_, ?_⟩
  · rw [Token.depth_concat, h.depth_eq]
  · rw [Token.length_strayClosers_concat, h.unmatchedClosers_eq, h.depth_eq]

end Lexis
