import CostLens.Text.Test

/-! # Data structures

The data structures that a text builds, told by how they are usually built.
-/
namespace CostLens

/-- A kind of data structure. -/
inductive Structure
  | array
  | hashMap
  | set
  | stack
  | queue
  | tree
  deriving DecidableEq, Repr

namespace Structure

def all : List Structure := [array, hashMap, set, stack, queue, tree]

def label : Structure → Text
  | array => "Array"
  | hashMap => "Hash Map/Object"
  | set => "Set"
  | stack => "Stack"
  | queue => "Queue"
  | tree => "Tree/LinkedList"

def ofLabel? (t : Text) : Option Structure := all.find? fun s => s.label == t

/-- Whether a kind makes the space grow with the input. -/
def isLinear : Structure → Bool
  | array | hashMap => true
  | _ => false

open Test

/-- A constructor call of the given type. -/
def built (k : Test) : Test := somewhere <| lit "new" <| gap k

/-- Something between two signs on one line. -/
def between (first last : Text) : Test := somewhere <| lit first <| onLine <| lit last done

/-- The tests by which a kind is recognised; one of them suffices. -/
def idioms : Structure → List Test
  | array => [built <| many isWord <| lit "Array" done, between "[" "]", hasWord "list("]
  | hashMap => [built <| lit "Map" done, built <| lit "HashMap" done,
      built <| lit "Dictionary" done, between "\x7b" "\x7d", hasWord "dict("]
  | set => [built <| lit "Set" done, hasWord "set("]
  | stack => [built <| lit "Stack" done, between "push" "pop"]
  | queue => [built <| lit "Queue" done, between "enqueue" "dequeue", hasWord "deque("]
  | tree => [has "LinkedList", has "TreeNode", has "BinaryTree"]

/-- The kinds that a text builds. -/
def find (span : Text) : List Structure := all.filter fun s => s.idioms.any (· span)

end Structure

end CostLens
