import CostLens.Text.Lines

/-! # Families of languages

Languages are told apart only by how they delimit a block: by braces or by indentation. A document
of unknown kind is of the mixed family, in which each declaration line decides for itself.
-/
namespace CostLens

/-- How the languages of a family delimit their blocks. -/
inductive Family
  | brace
  | indent
  | mixed
  deriving DecidableEq, Repr

namespace Family

def label : Family → Text
  | brace => "brace"
  | indent => "indent"
  | mixed => "mixed"

def ofLabel? (t : Text) : Option Family :=
  [brace, indent, mixed].find? fun f => f.label == t

/-- How the block opened on a line is delimited: in a mixed document by indentation when the line
ends with a colon, white space aside, and by braces otherwise. -/
def ofLine (family : Family) (line : Text) : Family :=
  match family with
  | mixed => if endsWith (trimEnd line) ":" then indent else brace
  | f => f

theorem ofLine_ne_mixed (family : Family) (line : Text) : family.ofLine line ≠ mixed := by
  cases family <;> simp only [ofLine] <;> try split
  all_goals decide

end Family

end CostLens
