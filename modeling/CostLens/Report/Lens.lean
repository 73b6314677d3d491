import CostLens.Text.Basic

/-! # Lenses

The line shown above a function: its labels and when they were found.
-/
namespace CostLens.Lens

/-- The title of a function without a result. -/
def title : Text := "🔍 Analyze Complexity"

/-- The labels of a result and, if it is known, the time of its capture. -/
def text (time space : Text) (stamp : Option Text) : Text :=
  let labels : List Text := ["⏱️ " ++ time, "💾 " ++ space]
  let captured : List Text :=
    match stamp with
    | some s => if s.isEmpty then [] else ["🕒 " ++ s]
    | none => []
  joinWith " | " (labels ++ captured)

end CostLens.Lens
