import Lexis.Diagnostic.Basic

/-!
# Diagnostic handlers

A handler collects diagnostics in the order in which they are emitted.

* `Handler.emit`, `Handler.emitAll`: add diagnostics at the end, as `Handler.diagnostics_emit` and
  `Handler.diagnostics_emitAll` say.
* `Handler.take`: gives all diagnostics and leaves none.
* `Handler.size`, `Handler.count`, `Handler.hasErrors`: how many diagnostics there are, how many of
  a level, and whether one is an error.
-/

namespace Lexis

/-- The diagnostics collected so far. -/
structure Handler where
  /-- The diagnostics, the newest first. -/
  newest : List Diagnostic := []
  deriving DecidableEq, Repr

namespace Handler

/-- The handler without diagnostics. -/
def empty : Handler := {}

/-- The diagnostics, the oldest first. -/
def diagnostics (h : Handler) : List Diagnostic := h.newest.reverse

/-- Adds a diagnostic. -/
def emit (h : Handler) (d : Diagnostic) : Handler := ⟨d :: h.newest⟩

/-- Adds diagnostics in order. -/
def emitAll (h : Handler) (ds : List Diagnostic) : Handler := ds.foldl emit h

/-- Gives the diagnostics and empties the handler. -/
def take (h : Handler) : List Diagnostic × Handler := (h.diagnostics, empty)

/-- The number of diagnostics. -/
def size (h : Handler) : Nat := h.newest.length

/-- The number of diagnostics of a level. -/
def count (h : Handler) (level : Level) : Nat := h.newest.countP (·.level = level)

/-- Whether some diagnostic is an error. -/
def hasErrors (h : Handler) : Bool := h.newest.any Diagnostic.isError

@[simp] theorem diagnostics_empty : empty.diagnostics = [] := rfl

@[simp] theorem diagnostics_emit (h : Handler) (d : Diagnostic) :
    (h.emit d).diagnostics = h.diagnostics ++ [d] := by
  simp [diagnostics, emit]

@[simp] theorem diagnostics_emitAll (h : Handler) (ds : List Diagnostic) :
    (h.emitAll ds).diagnostics = h.diagnostics ++ ds := by
  induction ds generalizing h with
  | nil => simp [emitAll]
  | cons d ds ih => simpa [emitAll] using ih (h.emit d)

end Handler

end Lexis
