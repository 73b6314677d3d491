import CostLens.Source.Family

/-! # Languages

The names and short names by which a language can be given, and the family that a language or a
file name belongs to.
-/
namespace CostLens.Language

def braceLanguages : List Text :=
  ["javascript", "javascriptreact", "typescript", "typescriptreact"]

def indentLanguages : List Text := ["python"]

/-- All languages, in the order of code points. -/
def supported : List Text :=
  ["javascript", "javascriptreact", "python", "typescript", "typescriptreact"]

/-- Short names and the languages they stand for, in the order of code points. -/
def aliases : List (Text × Text) :=
  [("js", "javascript"), ("jsx", "javascriptreact"), ("node", "javascript"), ("py", "python"),
    ("python3", "python"), ("ts", "typescript"), ("tsx", "typescriptreact")]

/-- The ends of the names of files in a language with braces. -/
def braceExtensions : List Text := [".js", ".ts", ".jsx", ".tsx", ".mjs", ".cjs"]

/-- The ends of the names of files in a language with indented blocks. -/
def indentExtensions : List Text := [".py", ".pyw"]

/-- The language that a name or short name in any case stands for. -/
def resolve? (name : Text) : Option Text :=
  let lowered := lowerAscii name
  if supported.contains lowered then some lowered else aliases.lookup lowered

/-- The message for a name that stands for no language. -/
def unsupportedMessage (name : Text) : Text :=
  "Unsupported language: '" ++ name ++ "'. Supported languages: " ++ joinWith ", " supported
    ++ ". Aliases: " ++ joinWith ", " (aliases.map (·.1))

/-- The family of a language given by name. -/
def familyOfName? (name : Text) : Option Family :=
  match resolve? name with
  | none => none
  | some language =>
    if braceLanguages.contains language then some .brace
    else if indentLanguages.contains language then some .indent
    else none

/-- The family of a file by the end of its name. -/
def familyOfFile? (name : Text) : Option Family :=
  let lowered := lowerAscii name
  if braceExtensions.any (endsWith lowered) then some .brace
  else if indentExtensions.any (endsWith lowered) then some .indent
  else none

/-- The family of a document: by its language if that is known, else by its file name, else
mixed. -/
def family (language fileName : Option Text) : Family :=
  ((language.bind familyOfName?).or (fileName.bind familyOfFile?)).getD .mixed

/-- The names and short names that begin with a given text in any case. -/
def completions (incomplete : Text) : List Text :=
  (supported ++ aliases.map (·.1)).filter (startsWith · (lowerAscii incomplete))

end CostLens.Language
