import CostLens.Text.Basic

/-! # White space

The characters with the white space property, and the three ways to trim a text of them.
-/
namespace CostLens

/-- Whether a character is white space. The four information separators count, the zero-width
space and the byte order mark do not. -/
def isBlank (c : Char) : Bool :=
  inRanges [(0x09, 0x0d), (0x1c, 0x20), (0x85, 0x85), (0xa0, 0xa0), (0x1680, 0x1680),
    (0x2000, 0x200a), (0x2028, 0x2029), (0x202f, 0x202f), (0x205f, 0x205f), (0x3000, 0x3000)]
    c.toNat

def trimStart (t : Text) : Text := t.dropWhile isBlank

def trimEnd (t : Text) : Text := (t.reverse.dropWhile isBlank).reverse

def trim (t : Text) : Text := trimEnd (trimStart t)

end CostLens
