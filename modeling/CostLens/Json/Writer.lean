import CostLens.Json.Basic
import CostLens.Number.Shortest
import CostLens.Text.Quoted

/-! # Writing JSON

One item or member a line, two more spaces for each level, and every character beyond the controls
as it is.
-/
namespace CostLens.Json

namespace Writer

def char (c : Char) : Text :=
  if c = '"' ∨ c = '\\' then ['\\', c]
  else if c = '\n' then "\\n"
  else if c = '\r' then "\\r"
  else if c = '\t' then "\\t"
  else if c = '\x08' then "\\b"
  else if c = '\x0c' then "\\f"
  else if c.toNat < 0x20 then "\\u" ++ Quoted.hex 4 c.toNat
  else [c]

def string (t : Text) : Text := ['"'] ++ t.flatMap char ++ ['"']

/-- A double; the numbers that are not finite have names. -/
def float : Binary64 → Text
  | .nan => "NaN"
  | .infinity negative => if negative then "-Infinity" else "Infinity"
  | x => x.text

/-- The start of a line at a level. -/
def lineStart (level : Nat) : Text := '\n' :: List.replicate (2 * level) ' '

mutual

/-- A value that begins at a level. -/
def value (level : Nat) : Json → Text
  | .null => "null"
  | .bool b => if b then "true" else "false"
  | .int i => intText i
  | .float x => float x
  | .str t => string t
  | .arr [] => "[]"
  | .arr (v :: vs) =>
    ['['] ++ lineStart (level + 1) ++ value (level + 1) v ++ items (level + 1) vs
      ++ lineStart level ++ [']']
  | .obj [] => "\x7b\x7d"
  | .obj ((key, v) :: ms) =>
    ['\x7b'] ++ lineStart (level + 1) ++ string key ++ ": " ++ value (level + 1) v
      ++ members (level + 1) ms ++ lineStart level ++ ['\x7d']

/-- Further items of an array. -/
def items (level : Nat) : List Json → Text
  | [] => []
  | v :: vs => [','] ++ lineStart level ++ value level v ++ items level vs

/-- Further members of an object. -/
def members (level : Nat) : List (Text × Json) → Text
  | [] => []
  | (key, v) :: ms =>
    [','] ++ lineStart level ++ string key ++ ": " ++ value level v ++ members level ms

end

end Writer

def write (v : Json) : Text := Writer.value 0 v

end CostLens.Json
