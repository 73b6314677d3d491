import CostLens.Number.Binary64
import CostLens.Text.Basic

/-! # JSON values

Objects keep the order of their members; a number is an integer or a double, by how it was
written.
-/
namespace CostLens

inductive Json
  | null
  | bool (value : Bool)
  | int (value : Int)
  | float (value : Binary64)
  | str (value : Text)
  | arr (items : List Json)
  | obj (members : List (Text × Json))

namespace Json

mutual

def same : Json → Json → Bool
  | null, null => true
  | bool a, bool b => a == b
  | int a, int b => a == b
  | float a, float b => a == b
  | str a, str b => a == b
  | arr as, arr bs => sameItems as bs
  | obj as, obj bs => sameMembers as bs
  | _, _ => false

def sameItems : List Json → List Json → Bool
  | [], [] => true
  | a :: as, b :: bs => same a b && sameItems as bs
  | _, _ => false

def sameMembers : List (Text × Json) → List (Text × Json) → Bool
  | [], [] => true
  | (k, a) :: as, (l, b) :: bs => k == l && same a b && sameMembers as bs
  | _, _ => false

end

mutual

theorem same_iff (a b : Json) : same a b = true ↔ a = b := by
  cases a with
  | null => cases b <;> simp [same]
  | bool x => cases b <;> simp [same]
  | int x => cases b <;> simp [same]
  | float x => cases b <;> simp [same]
  | str x => cases b <;> simp [same]
  | arr xs => cases b <;> simp [same, sameItems_iff xs]
  | obj xs => cases b <;> simp [same, sameMembers_iff xs]

theorem sameItems_iff (as bs : List Json) : sameItems as bs = true ↔ as = bs := by
  cases as with
  | nil => cases bs <;> simp [sameItems]
  | cons a as => cases bs <;> simp [sameItems, same_iff a, sameItems_iff as]

theorem sameMembers_iff (as bs : List (Text × Json)) : sameMembers as bs = true ↔ as = bs := by
  cases as with
  | nil => cases bs <;> simp [sameMembers]
  | cons a as =>
    obtain ⟨k, a⟩ := a
    cases bs <;> simp [sameMembers, same_iff a, sameMembers_iff as, Prod.ext_iff]

end

instance : DecidableEq Json := fun a b => decidable_of_iff _ (same_iff a b)

instance : Inhabited Json := ⟨null⟩

/-- A member put into an object: in the place of the one with the same key, or at the end. -/
def setMember (key : Text) (value : Json) : List (Text × Json) → List (Text × Json)
  | [] => [(key, value)]
  | (k, v) :: rest => if k = key then (k, value) :: rest else (k, v) :: setMember key value rest

/-- The members of an object without those that have a key. -/
def removeMember (key : Text) (members : List (Text × Json)) : List (Text × Json) :=
  members.filter fun m => m.1 != key

/-- The members of an object from pairs in the order in which they were written: a repeated key
keeps its first place and its last value. -/
def membersOf (pairs : List (Text × Json)) : List (Text × Json) :=
  pairs.foldl (fun members p => setMember p.1 p.2 members) []

def member? (key : Text) (members : List (Text × Json)) : Option Json := members.lookup key

/-- Whether a value counts as given: the empty ones, zero, false and null do not. -/
def isGiven : Json → Bool
  | null => false
  | bool b => b
  | int i => i != 0
  | float x => !x.isZero
  | str t => !t.isEmpty
  | arr items => !items.isEmpty
  | obj members => !members.isEmpty

theorem member?_setMember_self (key : Text) (value : Json) (members : List (Text × Json)) :
    member? key (setMember key value members) = some value := by
  induction members with
  | nil => simp [setMember, member?]
  | cons p rest ih =>
    obtain ⟨k, v⟩ := p
    by_cases h : k = key
    · simp [setMember, member?, h]
    · have hb : (key == k) = false := beq_false_of_ne (Ne.symm h)
      simpa [setMember, member?, h, List.lookup_cons, hb] using ih

end Json

end CostLens
