import CostLens.Json.Basic

/-! # Kinds of values -/
namespace CostLens.Json

/-- The word by which a message names the kind of a value. -/
def kind : Json → Text
  | .null => "NoneType"
  | .bool _ => "bool"
  | .int _ => "int"
  | .float _ => "float"
  | .str _ => "str"
  | .arr _ => "list"
  | .obj _ => "dict"

end CostLens.Json
