import CostLens.Failure
import CostLens.Log.State
import CostLens.Report.Basic
import CostLens.Time.Moment

/-! # Runs

A run works on the files and leaves a trace: messages shown, things printed, and at most one text
for the standard output. The clock stands still during a run. What was done before a failure stays
done.
-/
namespace CostLens

/-- Something seen on the terminal. -/
inductive Event
  | log (level : Level) (context message : Text)
  | out (report : Report)
  | err (report : Report)

/-- Everything that a run reads or changes. -/
structure World where
  files : FileSystem
  now : Moment
  log : Log := {}
  events : List Event := []
  printed : Text := []
  /-- What begins each line of a log file. -/
  lineStart : Text := []

/-- A step of a run. -/
abbrev Run := ExceptT Failure (StateM World)

namespace Run

/-- The run broken off by a failure. -/
def fail {α : Type} (f : Failure) : Run α := throw f

/-- A result that may be a failure. -/
def ofExcept {α : Type} : Except Failure α → Run α
  | .ok a => pure a
  | .error f => fail f

def files : Run FileSystem := do return (← get).files

def setFiles (fs : FileSystem) : Run Unit := modify fun w => { w with files := fs }

/-- One more event. -/
def emit (e : Event) : Run Unit := modify fun w => { w with events := w.events ++ [e] }

/-- Something printed on the terminal. -/
def out (r : Report) : Run Unit := emit (.out r)

/-- Something printed on the terminal for errors. -/
def err (r : Report) : Run Unit := emit (.err r)

/-- A text printed on the standard output. -/
def print (t : Text) : Run Unit := modify fun w => { w with printed := w.printed ++ t }

/-- A line added to the file with the given absolute names. -/
def appendLine (fs : FileSystem) (names : List Text) (line : Text) : FileSystem :=
  match fs.entry? names with
  | some (.file content) => fs.put names (.file (content ++ Utf8.encode line))
  | some .directory => fs
  | none => fs.put names (.file (Utf8.encode line))

/-- The world after a message. -/
def logged (w : World) (level : Level) (message : Text) : World :=
  let log := w.log.ensured
  let context := log.current.text
  match log.channel with
  | .console shown file =>
    let events :=
      if shown.rank ≤ level.rank then w.events ++ [.log level context message] else w.events
    let files :=
      match file with
      | some names => appendLine w.files names (w.lineStart ++ Log.line level context message)
      | none => w.files
    { w with log, events, files }
  | _ => { w with log }

def message (level : Level) (text : Text) : Run Unit := modify fun w => logged w level text

/-- Steps within a context. The context is left also when they fail. -/
def within {α : Type} (change : ContextChange) (body : Run α) : Run α := fun w =>
  let (result, after) := body { w with log := w.log.enter change }
  (result, { after with log := after.log.leave })

/-- A message with a context of its own. -/
def messageWith (change : ContextChange) (level : Level) (text : Text) : Run Unit :=
  within change (message level text)

/-- Steps, with other steps in between when they fail. The failure goes on. -/
def onFailure {α : Type} (body : Run α) (handle : Failure → Run Unit) : Run α :=
  tryCatch body fun f => do handle f; fail f

/-- A text that is a path: one with a null character in it is none. -/
def requirePath (t : Text) : Run Unit := if t.contains '\x00' then fail .nullInPath else pure ()

/-- Whether a path leads to an entry of a kind. -/
def leadsTo (kind : Entry → Bool) (path : Text) : Run Bool := do
  ofExcept (((← files).leadsTo kind path).mapError .file)

/-- A path with the home directory put in for a tilde. -/
def expandHome (p : Path) : Run Path := do
  requirePath (p.homeOwner?.getD [])
  match (← files).expandHome? p with
  | some q => pure q
  | none => fail .noHome

/-- The identifier of the document at a path. -/
def uriOf (p : Path) : Run Text := do
  let p ← expandHome p
  requirePath p.text
  return documentUri (p.absoluteNames (← files).current)

/-- The log set up anew. While that is under way nothing is set up, and so it remains when it
fails. -/
def configureLog (debug verbose : Bool) (file : Option Text) : Run Unit := do
  modify fun w => { w with log := { w.log with channel := .silent } }
  let target ← match file with
    | none => pure none
    | some t => do
      let fs ← files
      let path := Log.absolutePath fs (← expandHome (Path.ofText t))
      requirePath path.text
      match fs.modify path.text id with
      | .error e => fail (.file e)
      | .ok made => do
        setFiles made
        pure (some path.names)
  modify fun w =>
    { w with log := { w.log with channel := .console (Log.consoleLevel debug verbose) target } }

end Run

end CostLens
