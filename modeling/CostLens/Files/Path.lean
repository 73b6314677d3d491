import CostLens.Text.Utf8

/-! # Paths

A path is a root and the names from there on. Empty names and single dots vanish when it is read;
a double dot stays, since what it leads to depends on the files.
-/
namespace CostLens

/-- A path: how many slashes it begins with, and its names. -/
structure Path where
  slashes : Nat
  names : List Text
  deriving DecidableEq, Repr

namespace Path

/-- The pieces of a text between slashes. -/
def splitSlashes : Text → List Text
  | [] => [[]]
  | c :: t =>
    if c = '/' then [] :: splitSlashes t
    else match splitSlashes t with
      | [] => [[c]]
      | name :: names => (c :: name) :: names

/-- The bytes that a path may have. -/
def maxBytes : Nat := 4095

/-- The bytes that a name may have. -/
def maxNameBytes : Nat := 255

/-- The pieces in front of the last name of a text that asks for a directory by a slash behind that
name. Dots are no names: what they lead to is a directory anyway. -/
def beforeSlashed? (t : Text) : Option (List Text) :=
  match (splitSlashes t).reverse with
  | [] :: pieces =>
    match pieces.dropWhile List.isEmpty with
    | name :: before => if name = "." ∨ name = ".." then none else some before.reverse
    | [] => none
  | _ => none

/-- The names of a text. -/
def namesOf (t : Text) : List Text :=
  (splitSlashes t).filter fun n => !n.isEmpty && n != "."

/-- The slashes of the root: exactly two stay two, more are one. -/
def rootSlashes (t : Text) : Nat :=
  let n := (t.takeWhile (· == '/')).length
  if n ≤ 2 then n else 1

/-- The path that a text spells. -/
def ofText (t : Text) : Path := ⟨rootSlashes t, namesOf t⟩

def isAbsolute (p : Path) : Bool := p.slashes != 0

/-- A path as a text; the empty one is a dot. -/
def text (p : Path) : Text :=
  if p.slashes = 0 ∧ p.names.isEmpty then "."
  else List.replicate p.slashes '/' ++ joinWith "/" p.names

/-- A path behind another one, unless it is absolute. -/
def append (p q : Path) : Path := if q.isAbsolute then q else ⟨p.slashes, p.names ++ q.names⟩

def parent (p : Path) : Path := ⟨p.slashes, p.names.dropLast⟩

/-- The name behind a tilde at the front of a path, which stands for the home directory of the
one who has that name, or of oneself if it is empty. -/
def homeOwner? (p : Path) : Option Text :=
  match p.slashes, p.names with
  | 0, ('~' :: owner) :: _ => some owner
  | _, _ => none

/-- A path with a directory in the place of its first name. -/
def withHome (p : Path) (home : List Text) : Path := ⟨1, home ++ p.names.tail⟩

/-- Names with each double dot and the name before it removed; at the root it leads nowhere. -/
def normalNames (names : List Text) : List Text :=
  names.foldl (fun before (n : Text) => if n = ".." then before.dropLast else before ++ [n]) []

/-- The names of the absolute path that a path stands for in a directory. -/
def absoluteNames (directory : List Text) (p : Path) : List Text :=
  normalNames (if p.isAbsolute then p.names else directory ++ p.names)

def ofNames (names : List Text) : Path := ⟨1, names⟩

end Path

/-- The digits of a byte in upper-case hexadecimal. -/
def upperHex (n : Nat) : Text := (Quoted.hex 2 n).map Char.toUpper

/-- Whether a byte stands for itself in an identifier of a document. -/
def isUnreserved (c : Char) : Bool :=
  c.isAlphanum || ['_', '.', '-', '~', '/'].contains c

/-- The identifier of the document with the given names: the absolute path with every other byte
percent-encoded. -/
def documentUri (names : List Text) : Text :=
  "file://" ++ (Utf8.octets (Path.ofNames names).text).flatMap fun c =>
    if isUnreserved c then [c] else '%' :: upperHex c.toNat

end CostLens
