import CostLens.Files.FileSystem
import CostLens.Log.Basic

/-! # Where messages go

Messages from a level on are shown on the console, and all of them are written to a log file if
there is one. Before anything is set up, the console shows warnings.
-/
namespace CostLens

/-- Where messages go. -/
inductive Channel
  /-- Nothing is set up yet. -/
  | unset
  /-- Setting up failed, and no message is shown or written. -/
  | silent
  /-- Messages from a level on are shown, and all are written to the file with the given absolute
  names. -/
  | console (level : Level) (file : Option (List Text))
  deriving DecidableEq, Repr

/-- Where messages go, and the contexts entered and not left, the current one first. -/
structure Log where
  channel : Channel := .unset
  contexts : List Context := []
  deriving DecidableEq, Repr

namespace Log

def current (l : Log) : Context := l.contexts.headD {}

def enter (l : Log) (change : ContextChange) : Log :=
  { l with contexts := l.current.apply change :: l.contexts }

def leave (l : Log) : Log := { l with contexts := l.contexts.tail }

/-- The log once something is set up: warnings are shown by default. -/
def ensured (l : Log) : Log :=
  if l.channel = .unset then { l with channel := .console .warning none } else l

/-- The level from which messages are shown. -/
def consoleLevel (debug verbose : Bool) : Level :=
  if debug then .debug else if verbose then .info else .warning

/-- The absolute path of a log file: double dots are removed without looking at the files. -/
def absolutePath (fs : FileSystem) (p : Path) : Path :=
  ⟨if p.isAbsolute then p.slashes else 1, p.absoluteNames fs.current⟩

/-- A line of a log file: the level in eight columns, the context and the message. -/
def line (level : Level) (context message : Text) : Text :=
  let label := level.label
  label ++ List.replicate (8 - label.length) ' ' ++ " " ++ context ++ message ++ "\n"

end Log

end CostLens
