import CostLens.Text.Basic

/-! # Log messages

A message has a level and a context: the document, the function and the language that are being
worked on. Contexts are entered and left like the levels of a stack.
-/
namespace CostLens

/-- How important a message is. -/
inductive Level
  | debug
  | info
  | warning
  | error
  deriving DecidableEq, Repr

namespace Level

def label : Level → Text
  | debug => "DEBUG"
  | info => "INFO"
  | warning => "WARNING"
  | error => "ERROR"

def rank : Level → Nat
  | debug => 0
  | info => 1
  | warning => 2
  | error => 3

end Level

/-- What is being worked on; an empty text stands for nothing. -/
structure Context where
  document : Text := []
  function : Text := []
  language : Text := []
  deriving DecidableEq, Repr

/-- A change of the context: the fields that are given replace the ones there were, also by
nothing. -/
structure ContextChange where
  document : Option Text := none
  function : Option Text := none
  language : Option Text := none
  deriving DecidableEq, Repr

namespace Context

def apply (c : Context) (change : ContextChange) : Context where
  document := change.document.getD c.document
  function := change.function.getD c.function
  language := change.language.getD c.language

/-- The fields of a context that stand for something, with their names. -/
def fields (c : Context) : List (Text × Text) :=
  [(("document" : Text), c.document), ("function", c.function), ("language", c.language)].filter
    fun f => !f.2.isEmpty

/-- A context in front of a message. -/
def text (c : Context) : Text :=
  if c.fields.isEmpty then []
  else "[" ++ joinWith ", " (c.fields.map fun f => f.1 ++ "=" ++ f.2) ++ "] "

end Context

end CostLens
