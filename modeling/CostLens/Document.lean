import CostLens.Run
import CostLens.Text.Lines

/-! # Documents -/
namespace CostLens

/-- A source file: its identifier and its lines. -/
structure Document where
  uri : Text
  lines : List Text
  deriving DecidableEq, Repr

def Document.load (path : Text) : Run Document := do
  let source ← Run.expandHome (Path.ofText path)
  if !(← Run.leadsTo Entry.isFile source.text) then
    Run.fail (.document (.notFound source.text))
  match (← Run.files).read source.text with
  | .error e => Run.fail (.document (.unreadable source.text e))
  | .ok bytes =>
    match Utf8.readText bytes with
    | .error f => Run.fail (.document (.undecodable source.text f))
    | .ok t => do
      Run.message .debug ("File read: " ++ source.text)
      return ⟨← Run.uriOf source, splitLines t⟩

end CostLens
