/-! # Text as a list of code points

Every offset, length and comparison in this library counts code points, so a text is the list of
its characters. String literals coerce to it.
-/
namespace CostLens

/-- A text is the list of its code points. -/
abbrev Text := List Char

instance : Coe String Text := ⟨String.toList⟩

/-- A line feed, the only line separator of a document. -/
def newline : Char := '\n'

/-- Texts joined with a separator between neighbours. -/
def joinWith (sep : Text) : List Text → Text
  | [] => []
  | [t] => t
  | t :: ts => t ++ sep ++ joinWith sep ts

/-- Lower case of the ASCII letters. The texts it is compared with are ASCII names, none of which
another script's letters fold to. -/
def lowerAscii (t : Text) : Text := t.map Char.toLower

def endsWith (t w : Text) : Bool := w.isSuffixOf t

def startsWith (t w : Text) : Bool := w.isPrefixOf t

/-- Whether `w` stands somewhere in a text. -/
def contains (w : Text) : Text → Bool
  | [] => w.isEmpty
  | c :: t => w.isPrefixOf (c :: t) || contains w t

/-- Whether one text comes before or with another in the order of code points. -/
def textLe : Text → Text → Bool
  | [], _ => true
  | _ :: _, [] => false
  | a :: s, b :: t => if a = b then textLe s t else decide (a.toNat < b.toNat)

/-- The members of a list in the order of code points, each once. -/
def sortedNames (names : List Text) : List Text := names.eraseDups.mergeSort textLe

/-- Whether a number lies in one of the ranges, both ends included. -/
def inRanges (ranges : List (Nat × Nat)) (n : Nat) : Bool :=
  ranges.any fun r => decide (r.1 ≤ n ∧ n ≤ r.2)

theorem contains_iff (w t : Text) : contains w t = true ↔ w <:+: t := by
  induction t with
  | nil => simp [contains]
  | cons c t ih => simp [contains, ih, List.infix_cons_iff]

theorem startsWith_iff (t w : Text) : startsWith t w = true ↔ w <+: t := by
  simp [startsWith]

theorem endsWith_iff (t w : Text) : endsWith t w = true ↔ w <:+ t := by
  simp [endsWith]

end CostLens
