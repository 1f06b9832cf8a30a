import Lexis.Lexer.Recovery
import Lexis.Proofs.Coverage

/-!
# The account of a recovery

Reading on after errors splits a source into tokens and skipped characters. `Recovery.Accounts` is
the ledger of the steps: each stands for the text of its token or for one character, and its
diagnostic is the warning or the error that is due. All facts about the tokens and diagnostics of a
recovery are read off the ledger, with no lexer in sight.

* `Token.strayClosers`: the closing brackets that come when no bracket is open.
* `Recovery.Accounts.exists_tiles`: the ranges of the tokens and of the skipped characters tile the
  text.
* `Recovery.Accounts.length_eq`: each character is in a token or is skipped.
* `Recovery.Accounts.warnings_eq`: the warnings are those of the stray closing brackets.
* `Recovery.Accounts.pairwise_start`: the diagnostics come in the order of their places.
-/

namespace Lexis

/-- The closing brackets among the tokens that come when no bracket is open, where `depth` brackets
are open in front of the tokens. -/
def Token.strayClosers (depth : Nat) : List Token → List Token
  | [] => []
  | t :: ts =>
    let rest := strayClosers (t.kind.depthAfter depth) ts
    if t.kind.closes = true ∧ depth = 0 then t :: rest else rest

/-- The range of the character that starts at the offset `n`. -/
def Text.charRange (source : Text) (n : Nat) : Nat × Nat :=
  (n, n + ((source.charAt? n).map Char.utf8Size).getD 0)

/-- The errors among some diagnostics. -/
def Diagnostic.errors (ds : List Diagnostic) : List Diagnostic := ds.filter (·.isError)

/-- The warnings among some diagnostics. -/
def Diagnostic.warnings (ds : List Diagnostic) : List Diagnostic := ds.filter (·.level = .warning)

namespace Recovery

open Diagnostic

/-- The diagnostic of a token in front of which `depth` brackets are open. -/
def warning? (depth : Nat) (t : Token) : Option Diagnostic :=
  if t.kind.closes = true ∧ depth = 0 then some (unmatchedCloserWarning t) else none

/-- The steps stand for the part of `source` behind `before`, one behind the other up to the end of
the input, with `depth` brackets open in front of them. -/
inductive Accounts (source : Text) : Text → Nat → List Step → Prop
  /-- The end of the input stands for nothing. -/
  | eof {depth : Nat} {t : Token} {events : List Event} (heof : t.isEof = true)
      (hspans : t.Spans source []) : Accounts source source depth [⟨some t, none, events⟩]
  /-- A token stands for the text it spans. -/
  | token {before taken : Text} {depth : Nat} {t : Token} {events : List Event} {ss : List Step}
      (hne : taken ≠ []) (hspans : t.Spans before taken)
      (hrest : Accounts source (before ++ taken) (t.kind.depthAfter depth) ss) :
      Accounts source before depth (⟨some t, warning? depth t, events⟩ :: ss)
  /-- An error stands for the character that is skipped after it. -/
  | error {before : Text} {c : Char} {depth : Nat} {e : LexError} {events : List Event}
      {ss : List Step} (hstart : e.span.start = Text.byteSize before)
      (hrest : Accounts source (before ++ [c]) depth ss) :
      Accounts source before depth (⟨none, some e.toDiagnostic, events⟩ :: ss)

/-! ## Tokens and diagnostics of steps -/

/-- The tokens of some steps. -/
def tokens (ss : List Step) : List Token := ss.filterMap (·.token?)

/-- The diagnostics of some steps. -/
def diagnostics (ss : List Step) : List Diagnostic := ss.filterMap (·.diagnostic?)

@[simp] theorem tokens_cons_some (t : Token) (d? : Option Diagnostic) (events : List Event)
    (ss : List Step) : tokens (⟨some t, d?, events⟩ :: ss) = t :: tokens ss := rfl

@[simp] theorem tokens_cons_none (d? : Option Diagnostic) (events : List Event)
    (ss : List Step) : tokens (⟨none, d?, events⟩ :: ss) = tokens ss := rfl

@[simp] theorem diagnostics_cons (t? : Option Token) (d? : Option Diagnostic)
    (events : List Event) (ss : List Step) :
    diagnostics (⟨t?, d?, events⟩ :: ss) = d?.toList ++ diagnostics ss := by
  cases d? <;> rfl

theorem errors_toDiagnostic_append (e : LexError) (ds : List Diagnostic) :
    errors ((some e.toDiagnostic).toList ++ ds) = e.toDiagnostic :: errors ds := rfl

theorem errors_warning?_append (depth : Nat) (t : Token) (ds : List Diagnostic) :
    errors ((warning? depth t).toList ++ ds) = errors ds := by
  unfold warning?
  split <;> rfl

theorem warnings_warning?_append (depth : Nat) (t : Token) (ds : List Diagnostic) :
    warnings ((warning? depth t).toList ++ ds) = (warning? depth t).toList ++ warnings ds := by
  unfold warning?
  split <;> rfl

namespace Accounts

variable {source before : Text} {depth : Nat} {ss : List Step}

theorem isPrefix (h : Accounts source before depth ss) : before <+: source := by
  induction h with
  | eof heof hspans => exact List.prefix_refl source
  | token hne hspans hrest ih => exact (List.prefix_append _ _).trans ih
  | error hstart hrest ih => exact (List.prefix_append _ _).trans ih

/-- The text that a step stands for is a part of the source. -/
theorem exists_append {taken : Text} (h : Accounts source (before ++ taken) depth ss) :
    ∃ rest, before ++ taken ++ rest = source :=
  h.isPrefix

theorem charAt?_eq {c : Char} (h : Accounts source (before ++ [c]) depth ss) :
    source.charAt? (Text.byteSize before) = some c := by
  obtain ⟨rest, rfl⟩ := h.exists_append
  rw [List.append_assoc, List.singleton_append, Text.charAt?_append]

/-! ## Tokens and skipped characters -/

/-- **The ranges of the tokens and of the skipped characters tile the text.** -/
theorem exists_tiles (h : Accounts source before depth ss) :
    ∃ tiles, Tiles (Text.byteSize before) tiles (Text.byteSize source) ∧
      tiles.Perm ((tokens ss).map Token.range ++
        (errors (diagnostics ss)).map (source.charRange ·.span.start)) := by
  induction h with
  | @eof depth t events heof hspans =>
    refine ⟨[t.range], ?_, .refl _⟩
    rw [hspans.range_eq, List.append_nil]
    exact .singleton (Nat.le_refl _)
  | @token before taken depth t events ss hne hspans hrest ih =>
    obtain ⟨tiles, htiles, hperm⟩ := ih
    refine ⟨t.range :: tiles, ⟨hspans.start_eq, ?_, ?_⟩, ?_⟩
    · exact Nat.le_of_lt (hspans.start_lt_stop hne)
    · rw [hspans.range_eq]
      exact htiles
    · rw [diagnostics_cons, errors_warning?_append]
      exact hperm.cons _
  | @error before c depth e events ss hstart hrest ih =>
    obtain ⟨tiles, htiles, hperm⟩ := ih
    have hrange : source.charRange e.span.start =
        (Text.byteSize before, Text.byteSize (before ++ [c])) := by
      rw [Text.charRange, hstart, hrest.charAt?_eq, Text.byteSize_append]
      rfl
    refine ⟨source.charRange e.span.start :: tiles, ?_, ?_⟩
    · rw [hrange]
      exact ⟨rfl, Text.byteSize_le_append before [c], htiles⟩
    · exact (hperm.cons _).trans List.perm_middle.symm

/-- An error is reported at a character of the source. -/
theorem isSome_charAt? (h : Accounts source before depth ss) :
    ∀ d ∈ errors (diagnostics ss), (source.charAt? d.span.start).isSome = true := by
  induction h with
  | eof heof hspans => simp [errors, diagnostics]
  | token hne hspans hrest ih =>
    rw [diagnostics_cons, errors_warning?_append]
    exact ih
  | @error before c depth e events ss hstart hrest ih =>
    intro d hd
    rcases List.mem_cons.mp hd with rfl | hmem
    · rw [show e.toDiagnostic.span.start = _ from hstart, hrest.charAt?_eq]
      rfl
    · exact ih d hmem

/-- **Each character is in a token or is skipped**, one for each error. -/
theorem length_eq (h : Accounts source before depth ss) :
    source.length = before.length + (reconstruct (tokens ss) source).length +
      (errors (diagnostics ss)).length := by
  rw [reconstruct_eq]
  induction h with
  | @eof depth t events heof hspans =>
    have htext : t.sourceText source = [] := by simpa using hspans.sourceText_eq []
    simp [tokens, diagnostics, errors, htext]
  | @token before taken depth t events ss hne hspans hrest ih =>
    obtain ⟨rest, hsource⟩ := hrest.exists_append
    have htext : t.sourceText source = taken := by rw [← hsource, hspans.sourceText_eq]
    rw [diagnostics_cons, errors_warning?_append, ih, List.length_append, tokens_cons_some,
      List.flatMap_cons, List.length_append, htext]
    omega
  | @error before c depth e events ss hstart hrest ih =>
    rw [diagnostics_cons, errors_toDiagnostic_append, ih, List.length_append]
    simp only [tokens_cons_none, List.length_cons, List.length_nil]
    omega

/-- Where no error is reported, the tokens put together are all that was left. -/
theorem append_reconstruct (h : Accounts source before depth ss)
    (hclean : errors (diagnostics ss) = []) :
    before ++ reconstruct (tokens ss) source = source := by
  rw [reconstruct_eq]
  induction h with
  | @eof depth t events heof hspans =>
    have htext : t.sourceText source = [] := by simpa using hspans.sourceText_eq []
    simp [tokens, htext]
  | @token before taken depth t events ss hne hspans hrest ih =>
    obtain ⟨rest, hsource⟩ := hrest.exists_append
    have htext : t.sourceText source = taken := by rw [← hsource, hspans.sourceText_eq]
    rw [diagnostics_cons, errors_warning?_append] at hclean
    rw [tokens_cons_some, List.flatMap_cons, htext, ← List.append_assoc, ih hclean]
  | error hstart hrest ih => contradiction

theorem byteSize_le_stop (h : Accounts source before depth ss) :
    ∀ t ∈ tokens ss, Text.byteSize before ≤ t.span.stop := by
  intro t ht
  obtain ⟨tiles, htiles, hperm⟩ := h.exists_tiles
  have hmem : t.range ∈ tiles := by
    rw [hperm.mem_iff]
    exact List.mem_append_left _ (List.mem_map_of_mem ht)
  obtain ⟨hstart, hle, -⟩ := htiles.bounds_of_mem hmem
  exact Nat.le_trans hstart hle

/-! ## Diagnostics -/

/-- **The warnings are those of the closing brackets that come when no bracket is open.** -/
theorem warnings_eq (h : Accounts source before depth ss) :
    warnings (diagnostics ss) =
      (Token.strayClosers depth (tokens ss)).map unmatchedCloserWarning := by
  induction h with
  | @eof depth t events heof hspans =>
    have hkind : t.kind = .eof := by simpa [Token.isEof] using heof
    simp [tokens, diagnostics, warnings, Token.strayClosers, hkind, Kind.closes]
  | @token before taken depth t events ss hne hspans hrest ih =>
    rw [diagnostics_cons, warnings_warning?_append, ih, tokens_cons_some, Token.strayClosers,
      warning?]
    split <;> rfl
  | error hstart hrest ih => exact ih

theorem byteSize_le_start (h : Accounts source before depth ss) :
    ∀ d ∈ diagnostics ss, Text.byteSize before ≤ d.span.start := by
  induction h with
  | eof heof hspans => simp [diagnostics]
  | @token before taken depth t events ss hne hspans hrest ih =>
    intro d hd
    rw [diagnostics_cons] at hd
    rcases List.mem_append.mp hd with hmem | hmem
    · unfold warning? at hmem
      split at hmem
      · obtain rfl := List.mem_singleton.mp hmem
        exact Nat.le_of_eq hspans.start_eq.symm
      · contradiction
    · exact Nat.le_trans (Text.byteSize_le_append before taken) (ih d hmem)
  | @error before c depth e events ss hstart hrest ih =>
    intro d hd
    rcases List.mem_cons.mp hd with rfl | hmem
    · exact Nat.le_of_eq hstart.symm
    · exact Nat.le_trans (Text.byteSize_le_append before [c]) (ih d hmem)

/-- **The diagnostics come in the order of their places**, no two at the same. -/
theorem pairwise_start (h : Accounts source before depth ss) :
    (diagnostics ss).Pairwise fun d e => d.span.start < e.span.start := by
  induction h with
  | eof heof hspans => exact .nil
  | @token before taken depth t events ss hne hspans hrest ih =>
    rw [diagnostics_cons]
    unfold warning?
    split
    · refine .cons (fun d hd => ?_) ih
      have hle := hrest.byteSize_le_start d hd
      rw [← hspans.stop_eq] at hle
      exact Nat.lt_of_lt_of_le (hspans.start_lt_stop hne) hle
    · exact ih
  | @error before c depth e events ss hstart hrest ih =>
    refine .cons (fun d hd => ?_) ih
    have hlt := Text.byteSize_lt_append before (List.cons_ne_nil c [])
    rw [show e.toDiagnostic.span.start = _ from hstart]
    exact Nat.lt_of_lt_of_le hlt (hrest.byteSize_le_start d hd)

end Accounts

end Recovery

end Lexis
