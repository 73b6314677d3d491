import CostLens.Analysis.Document
import CostLens.Report.Basic
import CostLens.Report.Lens
import CostLens.Report.Markup
import CostLens.Json.Kind
import CostLens.Store.Basic
import CostLens.Time.Display

/-! # What commands show

The content of each thing that a command prints.
-/
namespace CostLens.View

/-- A line with a sign in front. -/
def status (sign message : Text) : Report := .plain (sign ++ "  " ++ message)

def info (message : Text) : Report := status "ℹ" message

def warning (message : Text) : Report := status "⚠" message

def success (message : Text) : Report := status "✓" message

def noFunctions (path : Text) : Report := warning ("No functions found in " ++ path)

def lineRange (first last : Int) : Text := intText first ++ "-" ++ intText last

/-- A label in a cell of a table: a text as it is, nothing for null, and no other value. -/
def labelCell : Json → Except Failure Text
  | .str t => .ok t
  | .null => .ok []
  | v => .error (.unshowable v.kind)

/-- The record of a candidate among records. -/
def recordOf? (records : List Record) (c : Candidate) : Option Record :=
  records.find? fun r => r.key.function == c.name && r.key.line == c.startLine

def candidateRow (records : List Record) (c : Candidate) : Except Failure (List Text) := do
  let (time, space) ← match recordOf? records c with
    | some r => do pure (← labelCell r.time, ← labelCell r.space)
    | none => pure (("-" : Text), ("-" : Text))
  return [c.name, lineRange c.startLine c.endLine, time, space]

/-- The candidates of a file with what is stored about them. -/
def candidates (path : Text) (cs : List Candidate) (records : List Record) :
    Except Failure Report :=
  if cs.isEmpty then .ok (noFunctions path)
  else do
    return .table ("[bold]Functions: " ++ Markup.escape path ++ "[/bold]")
      ["Name", "Lines", "Time", "Space"] (← cs.mapM (candidateRow records))

/-- The moment that a text spells by a format, which has to be a text if the moment exists. -/
def captured (format : Json) (t : Text) : Except Failure Text :=
  match Moment.read? t with
  | none => .ok Moment.unknown
  | some m =>
    match m.displayed?, format with
    | none, _ => .error .outOfYears
    | some d, .str f => .ok (d.formatted f)
    | some _, .null => .error (.misuse (.formatKind "None"))
    | some _, v => .error (.misuse (.formatKind v.kind))

/-- The age of the moment that a text spells. -/
def age (now : Moment) (t : Text) : Except Failure Text :=
  match Moment.read? t with
  | none => .ok Moment.unknown
  | some m =>
    match Moment.age? now m with
    | some a => .ok a
    | none => .error .outOfYears

def header (path : Text) : Report :=
  .panel (.markup ("[bold]COMPLEXITY ANALYSIS: " ++ Markup.escape path ++ "[/bold]"))

/-- The verdict on a function, explained or not. -/
def verdict (a : Analysis) (explained : Bool) : Report :=
  let c := a.candidate
  let tree : Report := .tree
    ("[bold blue]Function: " ++ Markup.escape c.name ++ "[/bold blue] [dim](lines "
      ++ lineRange c.startLine c.endLine ++ ")[/dim]")
    ["[cyan]Time Complexity: " ++ a.verdict.time.label ++ "[/cyan]",
      "[cyan]Space Complexity: " ++ a.verdict.space.label ++ "[/cyan]"]
  if explained then .panel (.group [tree, .plain [], .plain a.explanation]) else .panel tree

def complete (a : Analysis) : Report :=
  success ("Complexity analysis complete for " ++ a.candidate.name ++ ": "
    ++ a.verdict.time.label ++ " time, " ++ a.verdict.space.label ++ " space")

/-- A number right-aligned in columns. -/
def rightAligned (width : Nat) (i : Int) : Text :=
  let digits := intText i
  List.replicate (width - digits.length) ' ' ++ digits

/-- The declaration line of a candidate with its number. -/
def declaration (width : Nat) (lines : List Text) (c : Candidate) : Report :=
  .plain (rightAligned width c.startLine ++ " │ "
    ++ trimEnd ((lineAt? lines c.startLine).getD []))

/-- The line below a declaration: a title, and the stored result if there is one. -/
def lens (width : Nat) (records : List Record) (format : Json) (c : Candidate) :
    Except Failure Report := do
  let indent := List.replicate (width + 3) ' ' ++ Lens.title
  match recordOf? records c with
  | none => return .plain indent
  | some r =>
    let stamp ← captured format r.timestamp
    return .plain (indent ++ "  " ++ Lens.text r.time.plain r.space.plain (some stamp))

def recordRow (now : Moment) (format : Json) (r : Record) : Except Failure (List Text) := do
  let stamp ← captured format r.timestamp
  let age ← age now r.timestamp
  let time ← labelCell r.time
  let space ← labelCell r.space
  return [r.key.document, r.key.function, intText r.key.line, time, space, stamp, age]

def records (now : Moment) (format : Json) (rs : List Record) : Except Failure Report :=
  if rs.isEmpty then .ok (info "No stored analysis results")
  else do
    return .table "[bold]Stored Analysis Results[/bold]"
      ["Document", "Function", "Line", "Time", "Space", "Captured", "Age"]
      (← rs.mapM (recordRow now format))

end CostLens.View
