import CostLens.Source.Family
import CostLens.Text.Replace

/-! # Code without comments and literals

Before anything is looked for in a block, its comments are removed and its string literals are
emptied, in separate passes over the whole text. Line feeds inside a removed part stay, so the
lines of the result are the lines of the block. Languages with indented blocks keep a double
slash, which divides there.
-/
namespace CostLens.Sanitized

def emptyLiteral : Text := "\"\""

def newlinesOf (t : Text) : Text := List.replicate (t.count newline) newline

/-- A comment between two marks, across lines; its line feeds stay. -/
def blockComment : Finder := fun t =>
  match ("/*" : Text).isPrefixOf? t with
  | none => none
  | some body => (lengthBefore? "*/" body).map fun n => (n + 4, newlinesOf (body.take n))

/-- A comment from a mark to the end of the line. -/
def lineComment (mark : Text) : Finder := fun t =>
  match mark.isPrefixOf? t with
  | none => none
  | some body => some (mark.length + (body.takeWhile (· != newline)).length, [])

/-- A literal between two of the given quotes on one line; it is emptied. -/
def quoted (quote : Char) : Finder
  | [] => none
  | c :: body =>
    if c = quote then
      let inside := body.takeWhile fun d => d != quote && d != newline
      if (body.drop inside.length).head? = some quote then some (inside.length + 2, emptyLiteral)
      else none
    else none

/-- A literal between two of the given marks, across lines; it is emptied and its line feeds
stay. -/
def longQuoted (mark : Text) : Finder := fun t =>
  match mark.isPrefixOf? t with
  | none => none
  | some body =>
    (lengthBefore? mark body).map fun n =>
      (n + 2 * mark.length, emptyLiteral ++ newlinesOf (body.take n))

/-- A literal between three quotes of either kind. -/
def tripleQuoted : Finder := fun t =>
  (longQuoted "\"\"\"" t).or (longQuoted "'''" t)

/-- The passes over a text, the first one first. -/
def passes : Family → List Finder
  | .indent => [tripleQuoted, quoted '\'', quoted '"', lineComment "#"]
  | _ => [blockComment, lineComment "//", quoted '\'', quoted '"']

/-- The text of a block without comments and with empty string literals. -/
def of (family : Family) (span : Text) : Text :=
  (passes family).foldl (fun t find => replaceAll find t) span

end CostLens.Sanitized
