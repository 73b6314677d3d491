import CostLens.Json.Reader
import CostLens.Number.Shortest
import CostLens.Text.Quoted

/-! # How a message shows a value

On one line, with quoted strings and the words `None`, `True` and `False`. A value with an integer
that has too many digits, or with containers too deep within each other, cannot be shown; no value
that is read is such a one.
-/
namespace CostLens.Json

mutual

/-- A value as a message shows it. -/
def shown : Json → Text
  | .null => "None"
  | .bool b => if b then "True" else "False"
  | .int i => intText i
  | .float x => x.text
  | .str t => Quoted.text t
  | .arr [] => "[]"
  | .arr (v :: vs) => ['['] ++ shown v ++ shownItems vs ++ [']']
  | .obj [] => "\x7b\x7d"
  | .obj ((key, v) :: ms) =>
    ['\x7b'] ++ Quoted.text key ++ ": " ++ shown v ++ shownMembers ms ++ ['\x7d']

/-- Further items of an array. -/
def shownItems : List Json → Text
  | [] => []
  | v :: vs => ", " ++ shown v ++ shownItems vs

/-- Further members of an object. -/
def shownMembers : List (Text × Json) → Text
  | [] => []
  | (key, v) :: ms => ", " ++ Quoted.text key ++ ": " ++ shown v ++ shownMembers ms

end

/-- A value put into a text: a string as it is, anything else as a message shows it. -/
def plain : Json → Text
  | .str t => t
  | v => v.shown

mutual

/-- What keeps a value from being shown when there is room for so many containers within each other:
the first integer or container that is met and is too much. -/
def obstacle? : (room : Nat) → Json → Option ReadError
  | _, .int i =>
    if Integer.maxDigits < (natText i.natAbs).length then some (.tooManyDigits none) else none
  | 0, .arr _ | 0, .obj _ => some (.tooDeep none)
  | room + 1, .arr vs => obstacleItems? room vs
  | room + 1, .obj ms => obstacleMembers? room ms
  | _, _ => none

/-- The first obstacle in the items of an array. -/
def obstacleItems? : (room : Nat) → List Json → Option ReadError
  | _, [] => none
  | room, v :: vs => (obstacle? room v).or (obstacleItems? room vs)

/-- The first obstacle in the members of an object. -/
def obstacleMembers? : (room : Nat) → List (Text × Json) → Option ReadError
  | _, [] => none
  | room, (_, v) :: ms => (obstacle? room v).or (obstacleMembers? room ms)

end

/-- A value as a message shows it, if it can be shown. -/
def shown? (v : Json) : Except ReadError Text :=
  match v.obstacle? maxDepth with
  | none => .ok v.shown
  | some e => .error e

/-- A value put into a text, if it can be. -/
def plain? : Json → Except ReadError Text
  | .str t => .ok t
  | v => v.shown?

end CostLens.Json
