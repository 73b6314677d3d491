import CostLens.Json.File
import CostLens.Store.Record

/-! # The store of results

A store holds the latest record for each key, in the order in which the keys were first recorded.
With a path it is read from a file when it is opened and written to it after each record.
-/
namespace CostLens

/-- The latest record for each key, and the file of the store. -/
structure Store where
  path : Option Path := none
  records : List Record := []
  deriving DecidableEq

namespace Store

/-- Records with one more: in the place of the one with the same key, or at the end. -/
def insert (r : Record) : List Record → List Record
  | [] => [r]
  | s :: rest => if s.key = r.key then r :: rest else s :: insert r rest

def put (s : Store) (r : Record) : Store := { s with records := insert r s.records }

def get? (s : Store) (k : Key) : Option Record := s.records.find? fun r => r.key == k

def size (s : Store) : Nat := s.records.length

/-- The records of a document, or all of them, by document, line and function. -/
def listed (s : Store) (document : Option Text) : List Record :=
  let selected := s.records.filter fun r =>
    match document with
    | some d => r.key.document == d
    | none => true
  selected.mergeSort fun a b => a.key.le b.key

/-- The content of the file of a store. -/
def snapshot (s : Store) (now : Text) : Json :=
  .obj [("updated_at", .str now), ("records", .arr (s.records.map Record.toJson))]

/-- The values of the records in a snapshot, if it has the form of one. -/
def items? : Json → Option (List Json)
  | .obj ms =>
    match Json.member? "records" ms with
    | none => some []
    | some (.arr items) => some items
    | some _ => none
  | _ => none

/-- The records that values make, each put into the store. -/
def ofItems (path : Path) (items : List Json) : Except Failure Store :=
  items.foldlM (fun s v => do return s.put (← Record.ofJson v)) { path := some path }

/-- The store that a snapshot makes. -/
def ofSnapshot (path : Path) (v : Json) : Except Failure Store :=
  match items? v with
  | some items => ofItems path items
  | none => .error (.store (.corrupt path.text))

/-- The failures of reading a file as failures of the store. An integer with too many digits, a
value that is nested too deep and a path that is none stay what they are. -/
def readFailure (path : Path) : Failure → Failure
  | .json (.malformed fault line column offset) =>
    .store (.unparsable path.text (.malformed fault line column offset))
  | .encoding f => .store (.undecodable path.text f)
  | .file e => .store (.unreadable path.text e)
  | f => f

/-- The store in a file; it is empty if there is no file. -/
def load (path : Path) : Run Store := do
  let v ← tryCatch (Json.loadOr path.text (.obj []) true) fun f => Run.fail (readFailure path f)
  let store ← Run.ofExcept (ofSnapshot path v)
  Run.message .debug ("Loaded " ++ natText store.size ++ " records from " ++ path.text)
  return store

/-- The store in a file, or one that is kept in memory only. -/
def openAt : Option Path → Run Store
  | some path => load path
  | none => pure {}

/-- A failure to write the file of a store as a failure of the store. -/
def saveFailure (path : Path) : Failure → Failure
  | .file e => .store (.unsaved path.text e)
  | f => f

/-- The store written to its file, whose directory is made if it is missing. -/
def save (s : Store) : Run Unit :=
  match s.path with
  | none => pure ()
  | some path => do
    Run.requirePath path.parent.text
    let now := (← get).now
    if (← Run.files).lacksTooMany path.parent then Run.fail .tooManyMissing
    let (fs, made) := (← Run.files).makeDirectories path.parent
    Run.setFiles fs
    match made with
    | .error e => Run.fail (.store (.unsaved path.text e))
    | .ok _ =>
      tryCatch (Json.save path.text (s.snapshot now.text)) fun f =>
        Run.fail (saveFailure path f)

/-- A record put into a store and saved: the result, and the store, which has the record also when
saving failed. -/
def record (s : Store) (key : Key) (time space : Json) (captured : Option Moment) :
    Run (Except Failure Record × Store) := do
  let r : Record := { key, time, space, timestamp := (captured.getD (← get).now).text }
  let s := s.put r
  tryCatch
    (do
      s.save
      Run.message .debug ("Recorded " ++ time.plain ++ "/" ++ space.plain ++ " for " ++ key.text)
      return (.ok r, s))
    fun f => return (.error f, s)

end Store

end CostLens
