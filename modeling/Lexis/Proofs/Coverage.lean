import Mathlib.Data.List.Chain
import Lexis.Proofs.Run

/-!
# Coverage

The tokens of a source leave nothing out and overlap nowhere: each starts where the one in front of
it ends, the first at the start and the last, the end of the input, at the end of the source. Their
source texts put together are the source.

* `Tiles`: ranges of bytes that follow one another without gap or overlap.
* `Lexer.Run.stands`: a run has read the source texts of its tokens.
* `Lexer.Run.tiles`, `Lexer.Run.exists_spans`: the tokens of a run tile what it has read, and each
  stands for a part of the source that is not empty.
* `Covers`: what it means that tokens cover a source. `covers_of_tokenize` says that those of a
  source do.
-/

namespace Lexis

/-! ## Tilings -/

/-- Ranges of bytes that follow one another from `start` to `stop` without gap or overlap. -/
def Tiles : Nat → List (Nat × Nat) → Nat → Prop
  | start, [], stop => start = stop
  | start, r :: rs, stop => r.1 = start ∧ r.1 ≤ r.2 ∧ Tiles r.2 rs stop

namespace Tiles

theorem append {a b c : Nat} {rs ss : List (Nat × Nat)} (hr : Tiles a rs b) (hs : Tiles b ss c) :
    Tiles a (rs ++ ss) c := by
  induction rs generalizing a with
  | nil =>
    obtain rfl : a = b := hr
    exact hs
  | cons r rs ih => exact ⟨hr.1, hr.2.1, ih hr.2.2⟩

theorem singleton {a b : Nat} (h : a ≤ b) : Tiles a [(a, b)] b := ⟨rfl, h, rfl⟩

theorem isChain {a b : Nat} {rs : List (Nat × Nat)} (h : Tiles a rs b) :
    rs.IsChain fun r s => s.1 = r.2 := by
  induction rs generalizing a with
  | nil => exact .nil
  | cons r rs ih =>
    cases rs with
    | nil => exact .singleton r
    | cons s rs => exact .cons_cons h.2.2.1 (ih h.2.2)

theorem le {a b : Nat} {rs : List (Nat × Nat)} (h : Tiles a rs b) : a ≤ b := by
  induction rs generalizing a with
  | nil => exact Nat.le_of_eq h
  | cons r rs ih =>
    obtain ⟨rfl, hle, hrest⟩ := h
    exact Nat.le_trans hle (ih hrest)

theorem bounds_of_mem {a b : Nat} {rs : List (Nat × Nat)} (h : Tiles a rs b) {r : Nat × Nat}
    (hr : r ∈ rs) : a ≤ r.1 ∧ r.1 ≤ r.2 ∧ r.2 ≤ b := by
  induction rs generalizing a with
  | nil => contradiction
  | cons s rs ih =>
    obtain ⟨rfl, hle, hrest⟩ := h
    rcases List.mem_cons.mp hr with rfl | hmem
    · exact ⟨Nat.le_refl _, hle, hrest.le⟩
    · obtain ⟨hstart, hbounds⟩ := ih hrest hmem
      exact ⟨Nat.le_trans hle hstart, hbounds⟩

/-- Ranges that tile are disjoint and in order. -/
theorem pairwise {a b : Nat} {rs : List (Nat × Nat)} (h : Tiles a rs b) :
    rs.Pairwise fun r s => r.2 ≤ s.1 := by
  induction rs generalizing a with
  | nil => exact .nil
  | cons r rs ih => exact .cons (fun s hs => (h.2.2.bounds_of_mem hs).1) (ih h.2.2)

end Tiles

namespace Token

/-- The range of bytes of a token. -/
def range (t : Token) : Nat × Nat := (t.span.start, t.span.stop)

namespace Spans

variable {before taken : Text} {t : Token}

theorem range_eq (h : t.Spans before taken) :
    t.range = (Text.byteSize before, Text.byteSize (before ++ taken)) :=
  Prod.ext h.start_eq h.stop_eq

theorem start_lt_stop (h : t.Spans before taken) (hne : taken ≠ []) :
    t.span.start < t.span.stop := by
  rw [h.start_eq, h.stop_eq]
  exact Text.byteSize_lt_append before hne

theorem isEdge_start (h : t.Spans before taken) (rest : Text) :
    Text.IsEdge (before ++ taken ++ rest) t.span.start := by
  rw [h.start_eq, List.append_assoc]
  exact Text.isEdge_append _ _

theorem isEdge_stop (h : t.Spans before taken) (rest : Text) :
    Text.IsEdge (before ++ taken ++ rest) t.span.stop := by
  rw [h.stop_eq]
  exact Text.isEdge_append _ _

theorem text_eq_sourceText (h : t.Spans before taken) (rest : Text)
    (hkind : t.kind ≠ .layout .indentation) : t.text = t.sourceText (before ++ taken ++ rest) := by
  rw [h.text_eq hkind, h.sourceText_eq]

end Spans

end Token

namespace Lexer

/-! ## What a run covers -/

namespace Run

variable {source before : Text} {l m : Lexer} {ts : List Token}

/-- **A run has read the source texts of its tokens.** -/
theorem stands (hrun : Run l ts m) (h : l.Stands source before) :
    m.Stands source (before ++ ts.flatMap (·.sourceText source)) := by
  induction hrun generalizing before with
  | nil l => simpa using h
  | cons hnext ht heof hrun ih =>
    obtain ⟨taken, -, hspans, hstands, -⟩ := h.token hnext ht heof
    have htext := hspans.sourceText_eq
    have hsource := hstands.append_rest
    rw [List.flatMap_cons, ← List.append_assoc, ← hsource, htext, hsource]
    exact ih hstands

theorem tiles (hrun : Run l ts m) (h : l.Stands source before) :
    Tiles l.mark.offset (ts.map Token.range) m.mark.offset := by
  induction hrun generalizing before with
  | nil l => rfl
  | @cons l m u t ts hnext ht heof hrun ih =>
    obtain ⟨taken, hne, hspans, hstands, -⟩ := h.token hnext ht heof
    have hlt := hspans.start_lt_stop hne
    have hrest := ih hstands
    rw [hstands.offset_eq, ← hspans.stop_eq] at hrest
    exact ⟨by rw [h.offset_eq]; exact hspans.start_eq, Nat.le_of_lt hlt, hrest⟩

/-- Each token of a run stands for a part of the source that is not empty. -/
theorem exists_spans (hrun : Run l ts m) (h : l.Stands source before) {t : Token} (ht : t ∈ ts) :
    t.isEof = false ∧ ∃ front taken rest,
      taken ≠ [] ∧ t.Spans front taken ∧ front ++ taken ++ rest = source := by
  induction hrun generalizing before with
  | nil l => contradiction
  | @cons l m u s ts hnext hs heof hrun ih =>
    obtain ⟨taken, hne, hspans, hstands, -⟩ := h.token hnext hs heof
    rcases List.mem_cons.mp ht with rfl | hmem
    · exact ⟨heof, before, taken, _, hne, hspans, hstands.append_rest⟩
    · exact ih hstands hmem

end Run

/-- At the end of the source the end of the input stands for nothing. -/
theorem Stands.spans_eofToken {source before : Text} {l : Lexer} (h : l.Stands source before)
    (hrest : l.rest = []) : before = source ∧ l.eofToken.Spans source [] := by
  have hbefore : before = source := by
    rw [← h.append_rest, hrest, List.append_nil]
  subst hbefore
  refine ⟨rfl, h.offset_eq, ?_, fun _ => rfl⟩
  rw [List.append_nil]
  exact h.offset_eq

end Lexer

/-! ## The tokens of a source -/

/-- The tokens are the whole of the source, in order and without loss. -/
structure Covers (source : Text) (tokens : List Token) : Prop where
  /-- The end of the input is the last token and no other, with an empty span at the end. -/
  eof : ∃ front last, tokens = front ++ [last] ∧ last.isEof = true ∧
    last.span.start = Text.byteSize source ∧ last.span.stop = Text.byteSize source ∧
    ∀ t ∈ front, t.isEof = false
  /-- Every other token has a span that is not empty, between edges of characters. -/
  span : ∀ t ∈ tokens, t.isEof = false → t.span.start < t.span.stop ∧
    Text.IsEdge source t.span.start ∧ Text.IsEdge source t.span.stop
  /-- The first token starts at the start, -/
  head : tokens.head?.map (·.span.start) = some 0
  /-- and every other where the one in front of it ends. -/
  chain : tokens.IsChain fun s t => t.span.start = s.span.stop
  /-- The source texts put together are the source. -/
  reconstruct_eq : reconstruct tokens source = source
  /-- The text of a token is its source text, indentation apart. -/
  text : ∀ t ∈ tokens, t.kind ≠ .layout .indentation → t.text = t.sourceText source

theorem Tiles.head_eq_zero {tokens : List Token} {n : Nat}
    (h : Tiles 0 (tokens.map Token.range) n) (hne : tokens ≠ []) :
    tokens.head?.map (·.span.start) = some 0 := by
  cases tokens with
  | nil => contradiction
  | cons t tokens => exact congrArg some h.1

/-- **Lossless coverage**: where lexing succeeds, the tokens cover the source. -/
theorem covers_of_tokenize {source : Text} {tokens : List Token}
    (h : tokenize source = .ok (.ok tokens)) : Covers source tokens := by
  obtain ⟨ts, m, hrun, hrest, rfl⟩ := exists_run_of_tokenize h
  have hstart := Lexer.stands_ofSource source .unknown
  have hstands := hrun.stands hstart
  obtain ⟨hread, hspans⟩ := hstands.spans_eofToken hrest
  -- the ranges of the run and the empty range behind it
  have htiles : Tiles 0 ((ts ++ [m.eofToken]).map Token.range) (Text.byteSize source) := by
    have hfront := hrun.tiles hstart
    rw [hstands.offset_eq, hread] at hfront
    rw [List.map_append, List.map_singleton, hspans.range_eq, List.append_nil]
    exact hfront.append (.singleton (Nat.le_refl _))
  refine ⟨⟨ts, m.eofToken, rfl, rfl, hspans.start_eq, ?_, ?_⟩, ?_, ?_, ?_, ?_, ?_⟩
  · rw [hspans.stop_eq, List.append_nil]
  · exact fun t ht => (hrun.exists_spans hstart ht).1
  · intro t ht heof
    rcases List.mem_append.mp ht with hmem | hmem
    · obtain ⟨-, front, taken, rest, hne, hspan, rfl⟩ := hrun.exists_spans hstart hmem
      exact ⟨hspan.start_lt_stop hne, hspan.isEdge_start rest, hspan.isEdge_stop rest⟩
    · obtain rfl := List.mem_singleton.mp hmem
      contradiction
  · exact htiles.head_eq_zero (by simp)
  · exact (List.isChain_map _).mp htiles.isChain
  · rw [Lexis.reconstruct_eq, List.flatMap_append, List.flatMap_singleton]
    have heof : m.eofToken.sourceText source = [] := by
      simpa using hspans.sourceText_eq []
    rw [heof, List.append_nil]
    exact hread
  · intro t ht hkind
    rcases List.mem_append.mp ht with hmem | hmem
    · obtain ⟨-, front, taken, rest, -, hspan, rfl⟩ := hrun.exists_spans hstart hmem
      exact hspan.text_eq_sourceText rest hkind
    · obtain rfl := List.mem_singleton.mp hmem
      simpa using hspans.text_eq_sourceText [] hkind

/-- A tab, whose text is eight spaces, and a string with a character of two bytes. -/
theorem covers_of_tokenize_tab :
    ∃ tokens, tokenize ['\t', '\'', 'é', '\''] = .ok (.ok tokens) ∧ tokens.length = 3 ∧
      Covers ['\t', '\'', 'é', '\''] tokens := by
  have h : tokenize ['\t', '\'', 'é', '\''] = .ok (.ok [
      ⟨.layout .indentation, List.replicate 8 ' ', ⟨0, 1, 1, 0, ⟨0⟩⟩, false⟩,
      ⟨.literal .string, ['\'', 'é', '\''], ⟨1, 5, 1, 1, ⟨0⟩⟩, true⟩,
      ⟨.eof, [], ⟨5, 5, 1, 4, ⟨0⟩⟩, true⟩]) := by decide +kernel
  exact ⟨_, h, rfl, covers_of_tokenize h⟩

end Lexis
