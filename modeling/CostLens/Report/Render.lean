import CostLens.Report.Markup
import CostLens.Run

/-! # Plain output

How reports and messages are written on a terminal without colours and frames.
-/
namespace CostLens

namespace Markup

/-- A mark and the backslashes before it: an escaped mark is kept, any other one goes. -/
def unmark : Finder := fun t =>
  let slashes := (t.takeWhile (· == '\\')).length
  let rest := t.drop slashes
  (length? rest).map fun n =>
    (slashes + n,
      List.replicate (slashes / 2) '\\' ++ (if slashes % 2 = 1 then rest.take n else []))

/-- A line without its marks. -/
def strip (t : Text) : Text := replaceAll unmark t

end Markup

namespace Report

mutual

def lines : Report → List Text
  | .markup t => [Markup.strip t]
  | .text t => [t]
  | .panel r => r.lines
  | .tree label children => Markup.strip label :: children.map fun c => "  " ++ Markup.strip c
  | .group parts => linesOfParts parts
  | .rule => [List.replicate 40 '-']
  | .trace => []
  | .table title columns rows =>
    Markup.strip title :: joinWith "\t" columns :: rows.map (joinWith "\t")

def linesOfParts : List Report → List Text
  | [] => []
  | r :: rest => r.lines ++ linesOfParts rest

end

end Report

namespace Event

/-- Whether an event belongs to the terminal for errors. -/
def isError : Event → Bool
  | .out _ => false
  | _ => true

def lines : Event → List Text
  | .log level context message => [level.label ++ " " ++ context ++ message]
  | .out r | .err r => r.lines

end Event

end CostLens
