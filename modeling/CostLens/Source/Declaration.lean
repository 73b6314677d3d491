import CostLens.Source.Family
import CostLens.Text.Test

/-! # Declaration lines

A line declares a function, method or class when it has one of a fixed list of shapes: some words,
the declared name, and a sign that a body follows. The rules are tried in order and the first that
fits gives the name.
-/
namespace CostLens

/-- A shape of declaration lines. -/
structure DeclarationRule where
  /-- The words before the name, each followed by white space. -/
  leading : List Text
  /-- Words that the name must not begin with. -/
  refused : List Text
  /-- What has to follow the name. -/
  follows : Test

namespace DeclarationRule

/-- The text after the leading words and the white space behind each. -/
def afterWords? : List Text → Text → Option Text
  | [], t => some t
  | w :: ws, t =>
    match w.isPrefixOf? t with
    | some (c :: rest) => if isBlank c then afterWords? ws (trimStart rest) else none
    | _ => none

/-- The name that a line declares by a rule. -/
def name? (rule : DeclarationRule) (line : Text) : Option Text :=
  match afterWords? rule.leading (trimStart line) with
  | none => none
  | some t =>
    let name := t.takeWhile isWord
    if !name.isEmpty && !rule.refused.any (startsWith name) && rule.follows (t.dropWhile isWord)
    then some name
    else none

end DeclarationRule

namespace Declaration

open Test

/-- Words that open a control statement and no method. -/
def controlWords : List Text := ["if", "while", "for", "switch", "catch", "with"]

/-- An opening parenthesis. -/
def parenthesis : Test := blanks <| lit "(" done

/-- A return annotation or nothing, then the arrow: a colon and at least one character up to the
next equals sign. -/
def annotatedArrow : Test :=
  blanks <| either (lit "=>" done) (lit ":" <| one (· != '=') <| many (· != '=') <| lit "=>" done)

/-- A parameter list, then the arrow. -/
def arrow : Test := lit "(" <| onLine <| lit ")" annotatedArrow

/-- A parameter list, then the opening brace of a body. -/
def methodBody : Test := blanks <| lit "(" <| onLine <| lit ")" <| blanks <| lit "\x7b" done

/-- A sign, white space around it, then `k`. -/
def sign (w : Text) (k : Test) : Test := blanks <| lit w <| blanks k

def braceRules : List DeclarationRule :=
  let binders : List Text := ["const", "let", "var"]
  let bound (k : Test) : List DeclarationRule := binders.map fun w => ⟨[w], [], sign "=" k⟩
  [⟨["function"], [], parenthesis⟩]
  ++ bound (lit "function" done)
  ++ bound (lit "async" <| gap <| lit "function" done)
  ++ bound arrow
  ++ bound (lit "async" <| blanks arrow)
  ++ [⟨[], [], sign ":" <| lit "function" done⟩,
      ⟨[], [], sign ":" <| lit "async" <| blanks <| lit "function" done⟩,
      ⟨[], [], sign ":" arrow⟩,
      ⟨[], [], sign ":" <| lit "async" <| blanks arrow⟩,
      ⟨[], controlWords, methodBody⟩,
      ⟨["async"], controlWords, methodBody⟩,
      ⟨["async", "function"], [], parenthesis⟩,
      ⟨["export", "function"], [], parenthesis⟩,
      ⟨["export", "async", "function"], [], parenthesis⟩,
      ⟨["export", "const"], [], sign "=" arrow⟩,
      ⟨["export", "const"], [], sign "=" <| lit "async" <| blanks arrow⟩,
      ⟨["class"], [], done⟩,
      ⟨["export", "class"], [], done⟩]

def indentRules : List DeclarationRule :=
  [⟨["def"], [], parenthesis⟩, ⟨["async", "def"], [], parenthesis⟩, ⟨["class"], [], done⟩]

/-- The rules of a family, in the order in which they are tried. -/
def rules : Family → List DeclarationRule
  | .brace => braceRules
  | .indent => indentRules
  | .mixed => braceRules ++ indentRules

/-- The name that a line declares. -/
def name? (family : Family) (line : Text) : Option Text :=
  (rules family).findSome? (·.name? line)

end Declaration

end CostLens
