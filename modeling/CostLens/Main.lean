import CostLens.Command.Execute
import CostLens.Command.Reach
import CostLens.Report.Render
import Std.Time.DateTime.Timestamp

/-! # The command line

The files that a command can reach are read, the command is run on them, and what it changed and
printed is written out.
-/
namespace CostLens.CommandLine

/-- The seconds from the start of year one to the start of 1970. -/
def epochSeconds : Int := 62135596800

def now : IO Moment := do
  let nanos := (← Std.Time.Timestamp.now).toNanosecondsSinceUnixEpoch.val
  return Moment.ofWallMicros (epochSeconds * 1000000 + nanos / 1000).toNat (some 0)

/-- The time in front of a line of a log file. -/
def lineStart (m : Moment) : Text :=
  m.formatted "%F %T" ++ "," ++ padded 3 (m.micro / 1000) ++ " "

/-- The text for the operating system. -/
def native (p : Path) : String := String.ofList p.text

/-- What stands under an absolute path, taken over. -/
def fetch (fs : FileSystem) (p : Path) : IO FileSystem := do
  let names := p.absoluteNames fs.current
  let place := (← IO.currentDir) / native (Path.ofNames names)
  if names.isEmpty then return fs
  else if ← place.isDir then return fs.put names .directory
  else if ← place.pathExists then
    return fs.put names (.file (← IO.FS.readBinFile place).toList)
  else return fs

/-- What stands under paths and on the way to them, taken over. -/
def fetchAll (fs : FileSystem) (paths : List Path) : IO FileSystem := do
  let absolute := paths.map fun p =>
    if p.isAbsolute then p else Path.append (Path.ofNames fs.current) p
  (absolute.flatMap Command.ancestry).foldlM fetch fs

/-- What a run changed, written out, directories before what they hold. -/
def store (before after : FileSystem) : IO Unit := do
  for ((_, names), entry) in after.entries.reverse do
    if before.entry? names != some entry then
      let place := native (Path.ofNames names)
      match entry with
      | .directory => IO.FS.createDir place
      | .file content => IO.FS.writeBinFile place ⟨content.toArray⟩

/-- The events of a run, written out. -/
def display (events : List Event) : IO Unit := do
  for e in events do
    for line in e.lines do
      if e.isError then IO.eprintln (String.ofList line) else IO.println (String.ofList line)

def exitCode : Command.Outcome → IO UInt32
  | .usage => do
    IO.eprintln "usage: costlens scan|analyze|lens|results [FILE] [OPTIONS]"
    return 2
  | .exit code => return UInt32.ofNat code
  | .broken f => do
    IO.eprintln (String.ofList f.message)
    return 1

/-- A command line run on the files of the machine. -/
def run (arguments : List Text) : IO UInt32 := do
  let current := Path.namesOf (toString (← IO.currentDir)).toList
  let home := Path.namesOf ((← IO.getEnv "HOME").getD "/").toList
  let moment ← now
  let empty : FileSystem := { entries := [], current, home }
  let reach (fs : FileSystem) : World :=
    { files := fs, now := moment, lineStart := lineStart moment }
  let files ← match Invocation.ofArguments? arguments with
    | none => pure empty
    | some i => do
      let settled ← fetchAll empty (Path.ofNames current :: Command.settingsPaths i empty)
      fetchAll settled (Command.workPaths i (reach settled))
  let (outcome, after) := Command.run arguments (reach files)
  store files after.files
  display after.events
  IO.print (String.ofList after.printed)
  exitCode outcome

end CostLens.CommandLine

def main (arguments : List String) : IO UInt32 :=
  CostLens.CommandLine.run (arguments.map String.toList)
