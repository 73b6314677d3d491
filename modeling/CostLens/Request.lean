import CostLens.Failure
import CostLens.Json.Shown
import CostLens.Number.Integer
import CostLens.Source.Candidate

/-! # Requests

What a request for an analysis refers to: an explicit range of lines, the functions of a name, or
all of them. A request that refers to nothing is refused, with the reason.
-/
namespace CostLens.Request

/-- The line number that a value gives. A truth value gives none. -/
def number? : Json → Option Int
  | .bool _ => none
  | .int i => some i
  | v => Integer.read? (trim v.plain)

/-- A bound of a range of lines from a value; `name` is what the bound is called. -/
def lineBound (name : Text) (v : Json) : Except RequestError Int :=
  match number? v with
  | none => .error (.notALine name v.shown)
  | some n => if n < 0 then .error (.belowZero name n) else .ok n

/-- A range of lines is not empty and lies within the document. -/
def checkSpan (first last count : Int) : Except RequestError Unit :=
  if last ≤ first then .error (.emptySpan first last)
  else if count < last then .error (.pastEnd last count)
  else .ok ()

/-- What is asked for: a function by name, and the two bounds of a range of lines. -/
structure Target where
  function : Option Text := none
  first : Option Text := none
  last : Option Text := none
  deriving DecidableEq, Repr

/-- The range of lines between two bounds. It bears the name that is given, or that of the
function that starts there. -/
def span (candidates : List Candidate) (count : Nat) (function : Option Text) (first last : Text) :
    Except RequestError Candidate := do
  let first ← lineBound "start line" (.str first)
  let last ← lineBound "end line" (.str last)
  checkSpan first last count
  match function with
  | some name => pure ⟨name, first, last⟩
  | none =>
    match candidates.find? fun c => c.startLine == first with
    | some c => pure ⟨c.name, first, last⟩
    | none => throw (.noFunctionAt first)

/-- The candidates that a request refers to, in a document with so many lines. -/
def targets (path : Text) (count : Nat) (candidates : List Candidate) (t : Target) :
    Except RequestError (List Candidate) :=
  match t.first, t.last, t.function with
  | some first, some last, function => do return [← span candidates count function first last]
  | some _, none, _ | none, some _, _ => .error .halfSpan
  | none, none, none => .ok candidates
  | none, none, some name =>
    let found := candidates.filter fun c => c.name == name
    if found.isEmpty then
      .error (.noFunctionNamed name path (sortedNames (candidates.map (·.name))))
    else .ok found

end CostLens.Request
