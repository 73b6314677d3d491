import CostLens.Text.Blank

/-! # Lines of a document

A document is the list of its lines. Positions are integers: one below zero counts from the end,
and a range of lines is clamped to the document.
-/
namespace CostLens

/-- The pieces of a text between line feeds. -/
def splitLines : Text → List Text
  | [] => [[]]
  | c :: t =>
    if c = newline then [] :: splitLines t
    else match splitLines t with
      | [] => [[c]]
      | line :: lines => (c :: line) :: lines

/-- Lines put together again with a line feed between neighbours. -/
def joinLines (lines : List Text) : Text := joinWith [newline] lines

/-- Tabs turned into spaces up to the next multiple of `width` columns, starting in a given
column; a line feed or carriage return leads back to column zero. -/
def expandTabs (width : Nat) : Nat → Text → Text
  | _, [] => []
  | column, c :: t =>
    if c = '\t' then
      let step := width - column % width
      List.replicate step ' ' ++ expandTabs width (column + step) t
    else if c = '\n' ∨ c = '\r' then c :: expandTabs width 0 t
    else c :: expandTabs width (column + 1) t

/-- The columns between two tab stops. -/
def tabWidth : Nat := 4

/-- The width of the white space that a line begins with, tabs expanded. -/
def indentation (line : Text) : Nat :=
  ((expandTabs tabWidth 0 line).takeWhile isBlank).length

/-- A position counted from the start of a list of the given length, when it lies in the list. -/
def position? (length : Nat) (i : Int) : Option Nat :=
  let k := if i < 0 then i + length else i
  if 0 ≤ k ∧ k < length then some k.toNat else none

def lineAt? (lines : List Text) (i : Int) : Option Text :=
  (position? lines.length i).bind (lines[·]?)

/-- A bound of a range of lines, clamped to the document. -/
def clampBound (length : Nat) (i : Int) : Nat :=
  if i < 0 then (i + length).toNat else min i.toNat length

/-- The lines from one bound up to another, the second one excluded. -/
def sliceLines (lines : List Text) (first last : Int) : List Text :=
  (lines.take (clampBound lines.length last)).drop (clampBound lines.length first)

/-- The lines met when the positions are walked upwards from `start`: a walk from below zero comes
by the end of the document first and then by all of it. A walk from before the first line meets
nothing that exists. -/
def linesFrom? (lines : List Text) (start : Int) : Option (List Text) :=
  if 0 ≤ start then some (lines.drop start.toNat)
  else if 0 ≤ start + lines.length then
    some (lines.drop (start + lines.length).toNat ++ lines)
  else none

theorem splitLines_ne_nil (t : Text) : splitLines t ≠ [] := by
  induction t with
  | nil => simp [splitLines]
  | cons c t ih =>
    rw [splitLines]
    split
    · simp
    · split <;> simp

theorem joinLines_splitLines (t : Text) : joinLines (splitLines t) = t := by
  induction t with
  | nil => rfl
  | cons c t ih =>
    rw [splitLines]
    cases h : splitLines t with
    | nil => exact absurd h (splitLines_ne_nil t)
    | cons line lines =>
      rw [h] at ih
      by_cases hc : c = newline
      · simp [hc, joinLines, joinWith] at ih ⊢
        exact ih
      · cases lines <;> simp_all [joinLines, joinWith]

end CostLens
