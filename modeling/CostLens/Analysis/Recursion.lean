import CostLens.Text.Test

/-! # Recursion

A name counts as recursive when it is followed by an opening parenthesis somewhere after its own
declaration. Only the text decides, so an unrelated call of the same name counts as well.
-/
namespace CostLens.Recursion

/-- A declaration at a position: how far behind the position the declared name begins, the name,
and the length of the whole declaration. -/
structure Found where
  skipped : Nat
  name : Text
  length : Nat
  deriving DecidableEq, Repr

/-- A declaring word, white space, and the declared name. -/
def wordThenName? (word : Text) (t : Text) : Option Found :=
  match word.isPrefixOf? t with
  | none => none
  | some rest =>
    let gap := rest.takeWhile isBlank
    let name := (rest.drop gap.length).takeWhile isWord
    if gap.isEmpty || name.isEmpty then none
    else some ⟨word.length + gap.length, name, word.length + gap.length + name.length⟩

/-- A name to which a function is assigned. -/
def nameThenFunction? (t : Text) : Option Found :=
  let name := t.takeWhile isWord
  let rest := trimStart (t.drop name.length)
  match ("=" : Text).isPrefixOf? rest with
  | none => none
  | some value =>
    match ("function" : Text).isPrefixOf? (trimStart value) with
    | none => none
    | some after => if name.isEmpty then none else some ⟨0, name, t.length - after.length⟩

/-- The declaration that begins at a position. -/
def found? (t : Text) : Option Found :=
  (wordThenName? "function" t).or <| (nameThenFunction? t).or (wordThenName? "def" t)

/-- The declared names with their offsets, from left to right. The next declaration is looked for
behind the last one; `skip` characters still belong to it. -/
def declarationsFrom : Nat → Nat → Text → List (Text × Nat)
  | _, _, [] => []
  | offset, skip + 1, _ :: t => declarationsFrom (offset + 1) skip t
  | offset, 0, c :: t =>
    match found? (c :: t) with
    | some f => (f.name, offset + f.skipped) :: declarationsFrom (offset + 1) (f.length - 1) t
    | none => declarationsFrom (offset + 1) 0 t

def declarations (span : Text) : List (Text × Nat) := declarationsFrom 0 0 span

/-- The declared names that are called after their declaration, in the order of code points. -/
def names (span : Text) : List Text :=
  sortedNames <| ((declarations span).filter fun d =>
    Test.has (d.1 ++ "(") (span.drop (d.2 + 1))).map (·.1)

end CostLens.Recursion
