import CostLens.Json.Writer
import CostLens.Run

/-! # Values in files -/
namespace CostLens.Json

def load (path : Text) : Run Json := do
  Run.requirePath path
  match (← Run.files).read path with
  | .error e => Run.fail (.file e)
  | .ok bytes =>
    match Utf8.readText bytes with
    | .error f => Run.fail (.encoding f)
    | .ok t =>
      match read t with
      | .error e => Run.fail (.json e)
      | .ok v => pure v

/-- The value in a file, or the default one if there is no file. A file that holds no JSON is a
failure if `strict` is set, and else leads to a warning and the default value. -/
def loadOr (path : Text) (default : Json) (strict : Bool) : Run Json :=
  tryCatch (load path) fun f =>
    match f with
    | .file ⟨.notFound, _⟩ => pure default
    | .json (.malformed fault line column offset) =>
      if strict then Run.fail f
      else do
        let e : ReadError := .malformed fault line column offset
        Run.message .warning ("Could not decode JSON from " ++ path ++ ": " ++ e.message)
        pure default
    | _ => Run.fail f

/-- A value written to a file. A refusal leads to a warning and goes on as a failure. -/
def save (path : Text) (v : Json) : Run Unit := do
  Run.requirePath path
  match (← Run.files).write path (Utf8.encode v.write) with
  | .ok fs => do
    Run.setFiles fs
    Run.message .debug ("File write: " ++ (Path.ofText path).text)
  | .error e => do
    Run.message .warning ("Could not write JSON to " ++ path ++ ": " ++ e.message)
    Run.fail (.file e)

end CostLens.Json
