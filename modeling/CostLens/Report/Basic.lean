import CostLens.Text.Basic

/-! # What is shown on the terminal

The content of the output, apart from how it is drawn.
-/
namespace CostLens

/-- Something shown on the terminal. -/
inductive Report
  /-- A line with marks for emphasis. -/
  | markup (line : Text)
  /-- Plain text. -/
  | text (content : Text)
  /-- Something in a frame. -/
  | panel (content : Report)
  /-- A label with labels below it. -/
  | tree (label : Text) (children : List Text)
  /-- Several things below each other. -/
  | group (parts : List Report)
  /-- A line across the terminal. -/
  | rule
  /-- The way that led to a failure. -/
  | trace
  /-- A table with a title. -/
  | table (title : Text) (columns : List Text) (rows : List (List Text))

namespace Report

/-- The characters that plain text cannot show. -/
def isDropped (c : Char) : Bool := ['\x07', '\x08', '\x0b', '\x0c', '\x0d'].contains c

/-- Plain text without the characters that cannot be shown. -/
def plain (t : Text) : Report := .text (t.filter fun c => !isDropped c)

end Report

end CostLens
