import CostLens.Analysis.Growth
import CostLens.Failure
import CostLens.Json.Shown
import CostLens.Number.Integer

/-! # Records

The latest verdict on one function, and when it was found. A function is known by its document,
its name and the line it starts on. The labels of a record that was read are kept as they were,
whatever they are.
-/
namespace CostLens

/-- What a record is about. -/
structure Key where
  document : Text
  function : Text
  line : Int
  deriving DecidableEq, Repr

/-- A verdict on a function. -/
structure Record where
  key : Key
  time : Json
  space : Json
  timestamp : Text
  deriving DecidableEq

namespace Key

def text (k : Key) : Text := k.document ++ ":" ++ k.function ++ ":" ++ intText k.line

/-- Whether a key comes before or with another one: by document, then line, then function. -/
def le (a b : Key) : Bool :=
  if a.document = b.document then
    if a.line = b.line then textLe a.function b.function else decide (a.line ≤ b.line)
  else textLe a.document b.document

end Key

namespace Record

def members (r : Record) : List (Text × Json) :=
  [("document", .str r.key.document), ("function", .str r.key.function),
    ("start_line", .int r.key.line), ("time_complexity", r.time), ("space_complexity", r.space),
    ("timestamp", .str r.timestamp)]

def toJson (r : Record) : Json := .obj r.members

/-- The line that a value gives: a number is cut to an integer and a text is read as one. An
infinite number is an error of its own. -/
def line : Json → Except Failure (Option Int)
  | .bool b => .ok (some (if b then 1 else 0))
  | .int i => .ok (some i)
  | .float (.infinity _) => .error .infiniteInteger
  | .float .nan => .ok none
  | .float (.finite negative m e) => .ok (some (Binary64.truncate negative m e))
  | .str t => .ok (Integer.read? t)
  | _ => .ok none

/-- The label of a growth that is not given. -/
def defaultLabel : Json := .str Growth.constant.label

/-- The text that a value gives. A value that is nested too deep is an error of its own, and an
integer with too many digits gives none. -/
def text (v : Json) : Except Failure (Option Text) :=
  match v.plain? with
  | .ok t => .ok (some t)
  | .error (.tooDeep container) => .error (.json (.tooDeep container))
  | .error _ => .ok none

/-- What the member with a key gives, if there is one. -/
def given {α : Type} (part : Json → Except Failure (Option α)) (key : Text)
    (ms : List (Text × Json)) : OptionT (Except Failure) α :=
  OptionT.mk (match Json.member? key ms with
    | some v => part v
    | none => .ok none)

/-- The record that the members of an object make, if they are the ones of a record. They are looked
at one after the other. -/
def ofMembers? (ms : List (Text × Json)) : OptionT (Except Failure) Record := do
  let document ← given text "document" ms
  let function ← given text "function" ms
  let line ← given line "start_line" ms
  let timestamp ← given text "timestamp" ms
  return {
    key := { document, function, line }
    time := (Json.member? "time_complexity" ms).getD defaultLabel
    space := (Json.member? "space_complexity" ms).getD defaultLabel
    timestamp }

/-- The record that a value makes. -/
def ofJson (v : Json) : Except Failure Record :=
  let found : Except Failure (Option Record) := match v with
    | .obj ms => (ofMembers? ms).run
    | _ => .ok none
  match found with
  | .ok (some r) => .ok r
  | .ok none => .error (.telling v.shown? fun t => .store (.malformedRecord t))
  | .error f => .error f

end Record

end CostLens
