import CostLens.Command.Arguments
import CostLens.Settings

/-! # Options of a command

What a command works with: its own options first, then the settings, then the defaults.
-/
namespace CostLens

/-- What a command works with. -/
structure Options where
  language : Option Text
  asJson : Bool
  timestampFormat : Json
  showExplanation : Bool
  useStore : Bool
  storePath : Path
  deriving DecidableEq

namespace Options

def languageNamed (name : Text) : Run (Option Text) :=
  match Language.resolve? name with
  | some language => pure (some language)
  | none => Run.fail (.settings (.unsupportedLanguage name))

/-- The language that is asked for, or else the one of the settings. -/
def chooseLanguage (i : Invocation) (s : Settings) : Run (Option Text) :=
  match i.given? .language with
  | some name => do
    Run.message .debug ("Resolving language from override: " ++ name)
    languageNamed name
  | none =>
    if s.language.isGiven then do
      Run.message .debug ("Using language from config: " ++ s.language.plain)
      match s.language with
      | .str name => languageNamed name
      | _ => Run.fail (.misuse .missingPart)
    else pure none

/-- The log file that is asked for, or else the one of the settings. -/
def logFile (i : Invocation) (s : Settings) : Except Failure (Option Text) :=
  match i.given? .logFile with
  | some t => .ok (some t)
  | none =>
    if s.logFile.isGiven then
      match s.logFile with
      | .str t => .ok (some t)
      | _ => .error (.misuse .wrongKind)
    else .ok none

/-- Whether results are stored, by the settings. -/
def storeEnabled (s : Settings) : Except Failure Json :=
  match s.store with
  | .settings store => .ok store.enabled
  | .other _ => .error (.misuse .missingPart)

def outputFormat (i : Invocation) (s : Settings) : Json :=
  if i.has .json then .str "json" else s.outputFormat

/-- The value that says whether results are stored. -/
def chooseStore (i : Invocation) (enabled : Json) : Run Json :=
  if i.has .noStore then do
    Run.message .debug "Result store disabled via --no-store flag"
    pure (.bool false)
  else pure enabled

/-- The options of a command. The log is set up on the way. -/
def resolve (i : Invocation) : Run Options := do
  let s ← Run.ofExcept (Settings.ofJson (← Settings.loadFile (i.value? .config)))
  Run.configureLog (i.has .debug || s.debug.isGiven) (i.has .verbose)
    (← Run.ofExcept (logFile i s))
  Run.message .debug
    ("Loaded config from " ++ (i.given? .config).getD "default locations".toList)
  let language ← chooseLanguage i s
  let format := outputFormat i s
  let use ← chooseStore i (← Run.ofExcept (storeEnabled s))
  let storePath ← s.storePath
  Run.messageWith { language := some (language.getD []) } .info
    ("Options resolved (output=" ++ format.plain ++ ", store=" ++ use.plain ++ ")")
  return { language, asJson := decide (format = .str "json"), timestampFormat := s.timestampFormat,
           showExplanation := s.showExplanation.isGiven, useStore := use.isGiven, storePath }

end Options

end CostLens
