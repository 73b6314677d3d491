import CostLens.Command.Options
import CostLens.Document
import CostLens.Report.Views

/-! # Commands

A command reads its options, does its work within a context of the log, and ends with an exit code
or is broken off by a failure that is not its own to report.
-/
namespace CostLens.Command

def printJson (v : Json) : Run Unit := Run.print (v.write ++ "\n")

/-- The store that the options ask for. -/
def openStore (o : Options) : Run Store :=
  Store.openAt (if o.useStore then some o.storePath else none)

/-- Work within the context of a document. -/
def onDocument {α : Type} (o : Options) (path : Text) (body : Run α) : Run α :=
  Run.within { document := some path, language := some (o.language.getD []) } body

def familyOf (o : Options) (path : Text) : Family := Language.family o.language (some path)

def candidateJson (c : Candidate) : Json :=
  .obj [("name", .str c.name), ("start_line", .int c.startLine), ("end_line", .int c.endLine)]

/-- The candidates of a file are listed, with what is stored about them. -/
def runScan (o : Options) (path : Text) : Run Unit := onDocument o path do
  let document ← Document.load path
  let family := familyOf o path
  let candidates := Candidate.scan family document.lines
  Run.message .info ("Found " ++ natText candidates.length ++ " candidates (" ++ family.label
    ++ " rules)")
  if o.asJson then
    printJson (.obj [("document", .str document.uri), ("family", .str family.label),
      ("functions", .arr (candidates.map candidateJson))])
  else
    let store ← openStore o
    Run.out (← Run.ofExcept (View.candidates path candidates (store.listed (some document.uri))))

def analyzeTarget (family : Family) (document : Document) (c : Candidate) : Run Analysis :=
  match Analysis.ofCandidate? family document.lines c with
  | some a => pure a
  | none => Run.fail (.misuse .wrongKind)

/-- The verdict on a target put into the store. -/
def recordTarget (document : Document) (store : Store) (a : Analysis) :
    Run (Record × Store) := do
  let c := a.candidate
  let (result, store) ← store.record ⟨document.uri, c.name, c.startLine⟩
    (.str a.verdict.time.label) (.str a.verdict.space.label) none
  let record ← Run.ofExcept result
  Run.message .info ("Analyzed lines " ++ View.lineRange c.startLine c.endLine ++ ": "
    ++ a.verdict.time.label ++ " time, " ++ a.verdict.space.label ++ " space")
  return (record, store)

def resultJson (a : Analysis) (r : Record) : Json :=
  .obj [("name", .str a.candidate.name), ("start_line", .int a.candidate.startLine),
    ("end_line", .int a.candidate.endLine), ("time_complexity", .str a.verdict.time.label),
    ("space_complexity", .str a.verdict.space.label), ("timestamp", .str r.timestamp)]

/-- The targets analysed and stored one after the other; the results as values. -/
def analyzeTargets (o : Options) (family : Family) (document : Document) :
    Store → List Candidate → Run (List Json)
  | _, [] => pure []
  | store, c :: rest => do
    let (a, r, store) ← Run.within { function := some c.name } do
      let a ← analyzeTarget family document c
      let (r, store) ← recordTarget document store a
      pure (a, r, store)
    if !o.asJson then
      Run.out (View.verdict a o.showExplanation)
      Run.out (View.complete a)
    return resultJson a r :: (← analyzeTargets o family document store rest)

/-- The functions of a file that are asked for are analysed and stored. -/
def runAnalyze (o : Options) (path : Text) (target : Request.Target) : Run Unit :=
  onDocument o path do
    let document ← Document.load path
    let family := familyOf o path
    let candidates := Candidate.scan family document.lines
    match Request.targets path document.lines.length candidates target with
    | .error e => Run.fail (.request e)
    | .ok [] => Run.out (View.noFunctions path)
    | .ok targets => do
      let store ← openStore o
      if !o.asJson then
        Run.out (.markup [])
        Run.out (View.header path)
      let results ← analyzeTargets o family document store targets
      if o.asJson then
        printJson (.obj [("document", .str document.uri), ("results", .arr results)])
      else Run.out .rule

/-- Candidates shown one after the other, each with what is stored about it. -/
def showLenses (o : Options) (lines : List Text) (records : List Record) :
    List Candidate → Run Unit
  | [] => pure ()
  | c :: rest => do
    let width := (natText lines.length).length
    Run.out (View.declaration width lines c)
    Run.out (← Run.ofExcept (View.lens width records o.timestampFormat c))
    showLenses o lines records rest

/-- The declaration lines of a file are shown with what is stored about them. -/
def runLens (o : Options) (path : Text) : Run Unit := onDocument o path do
  let document ← Document.load path
  let candidates := Candidate.scan (familyOf o path) document.lines
  if candidates.isEmpty then Run.out (View.noFunctions path)
  else
    let store ← openStore o
    showLenses o document.lines (store.listed (some document.uri)) candidates

/-- The document whose results are asked for. -/
def resultsDocument (path : Option Text) : Run (Option Text) :=
  match path with
  | some t => if t.isEmpty then pure none else do return some (← Run.uriOf (Path.ofText t))
  | none => pure none

/-- The stored results of a file, or all of them, are listed. -/
def runResults (o : Options) (path : Option Text) : Run Unit := do
  let store ← openStore o
  let records := store.listed (← resultsDocument path)
  if o.asJson then printJson (.arr (records.map Record.toJson))
  else Run.out (← Run.ofExcept (View.records (← get).now o.timestampFormat records))

def work (i : Invocation) (o : Options) : Run Unit :=
  let path := i.file?.getD []
  match i.command with
  | scan => runScan o path
  | analyze => runAnalyze o path i.target
  | lens => runLens o path
  | results => runResults o i.file?

/-- A command with messages about its start and its end. No time passes. -/
def observed (i : Invocation) (o : Options) : Run Unit :=
  let label := i.command.name ++ "_command"
  Run.within { language := some (o.language.getD []) } do
    Run.message .debug ("Starting " ++ label)
    Run.onFailure (work i o) fun f =>
      Run.message .error ("Failed " ++ label ++ " after 0.000s: " ++ f.message)
    Run.message .debug ("Completed " ++ label ++ " in 0.000s")

/-- How a command ends. -/
inductive Outcome
  /-- The command line is not understood. -/
  | usage
  /-- The command ends with an exit code. -/
  | exit (code : Nat)
  /-- The command is broken off. -/
  | broken (failure : Failure)

/-- Whether a failure is one of the program's own kinds. -/
def isReported : Failure → Bool
  | .settings _ | .request _ | .document _ | .store _ => true
  | _ => false

/-- A failure of the program's own kinds reported: a refused request as a warning, any other one
as an error, with its trace if that is asked for. -/
def report (i : Invocation) (f : Failure) : Run Unit := do
  let name := i.command.name
  match f with
  | .request e => do
    Run.message .warning ("Rejected " ++ name ++ " request: " ++ e.message)
    Run.err (.markup ("[bold yellow]Warning:[/bold yellow] " ++ Markup.escape e.message))
  | _ => do
    Run.message .error (name ++ " failed: " ++ f.message)
    Run.err (.markup ("[bold red]Error in " ++ name ++ ":[/bold red] " ++ Markup.escape f.message))
    if i.has .debug then Run.err .trace

def execute (i : Invocation) : Run Outcome :=
  tryCatch (do observed i (← Options.resolve i); return .exit 0) fun f =>
    if isReported f then do report i f; return .exit 1 else return .broken f

/-- A command line run in a world, in which the log starts anew. -/
def run (arguments : List Text) (w : World) : Outcome × World :=
  match Invocation.ofArguments? arguments with
  | none => (.usage, w)
  | some i =>
    match execute i w with
    | (.ok outcome, after) => (outcome, after)
    | (.error f, after) => (.broken f, after)

end CostLens.Command
