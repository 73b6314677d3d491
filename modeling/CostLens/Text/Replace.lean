import CostLens.Text.Basic

/-! # Replacing fragments of a text

A finder looks at the text from a position on and says how long the fragment there is and what
stands in its place. Replacing goes from left to right and does not look into a fragment again.
-/
namespace CostLens

/-- The length of the fragment at a position and its replacement. -/
abbrev Finder := Text → Option (Nat × Text)

/-- Every fragment replaced, after the first `skip` characters are passed over as the rest of a
fragment already replaced. -/
def replaceFrom (find : Finder) : Nat → Text → Text
  | _, [] => []
  | skip + 1, _ :: t => replaceFrom find skip t
  | 0, c :: t =>
    match find (c :: t) with
    | some (length, out) => out ++ replaceFrom find (length - 1) t
    | none => c :: replaceFrom find 0 t

/-- Every fragment replaced. -/
def replaceAll (find : Finder) (t : Text) : Text := replaceFrom find 0 t

/-- The length of what stands before `w` for the first time. -/
def lengthBefore? (w : Text) : Text → Option Nat
  | [] => if w.isEmpty then some 0 else none
  | c :: t => if w.isPrefixOf (c :: t) then some 0 else (lengthBefore? w t).map (· + 1)

theorem replaceFrom_eq_drop (find : Finder) (n : Nat) (t : Text) :
    replaceFrom find n t = replaceFrom find 0 (t.drop n) := by
  induction t generalizing n with
  | nil => cases n <;> simp [replaceFrom]
  | cons c t ih =>
    cases n with
    | zero => rfl
    | succ n => simpa [replaceFrom] using ih n

/-- A fragment at the front is replaced and the rest is treated by itself. -/
theorem replaceAll_of_find {find : Finder} {c : Char} {t out : Text} {n : Nat}
    (h : find (c :: t) = some (n + 1, out)) :
    replaceAll find (c :: t) = out ++ replaceAll find (t.drop n) := by
  simp only [replaceAll, replaceFrom, h, Nat.add_sub_cancel]
  rw [replaceFrom_eq_drop]

/-- A character that begins no fragment stays. -/
theorem replaceAll_of_find_none {find : Finder} {c : Char} {t : Text}
    (h : find (c :: t) = none) : replaceAll find (c :: t) = c :: replaceAll find t := by
  simp [replaceAll, replaceFrom, h]

end CostLens
