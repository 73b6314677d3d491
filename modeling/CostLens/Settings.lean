import CostLens.Json.File
import CostLens.Json.Shown

/-! # Settings

Settings come from a JSON object. A flat key takes precedence over the member it stands for, and
what is not given has a default. Values are kept as they are given; only the format of output is
checked.
-/
namespace CostLens

/-- The settings of the store of results. -/
structure StoreSettings where
  enabled : Json := .bool true
  path : Json := .null
  deriving DecidableEq

/-- The member that holds the settings of the store, if it is of a kind that can. -/
inductive StoreMember
  | settings (s : StoreSettings)
  | other (v : Json)
  deriving DecidableEq

/-- The settings of a run. -/
structure Settings where
  language : Json := .null
  outputFormat : Json := .str "table"
  timestampFormat : Json := .str "%H:%M:%S"
  showExplanation : Json := .bool true
  debug : Json := .bool false
  logFile : Json := .null
  store : StoreMember := .settings {}
  deriving DecidableEq

namespace Settings

abbrev Members := List (Text × Json)

/-- The key of the member for the store. -/
def storeKey : Text := "store"

/-- What a flat key stands for: a member of the settings or one of the object for the store. -/
inductive Target
  | own (key : Text)
  | ofStore (key : Text)
  deriving DecidableEq

/-- The flat keys and what they stand for, in the order in which they are put in their places. -/
def flatKeys : List (Text × Target) :=
  [("default_language", .own "language"), ("output_format", .own "output_format"),
    ("timestamp_format", .own "timestamp_format"), ("show_explanation", .own "show_explanation"),
    ("debug", .own "debug"), ("log_file", .own "log_file"), ("store_enabled", .ofStore "enabled"),
    ("store_path", .ofStore "path")]

/-- The keys of the settings themselves. -/
def fieldKeys : List Text :=
  ["language", "output_format", "timestamp_format", "show_explanation", "debug", "log_file",
    storeKey]

/-- Settings while their flat keys are put in their places. The members are a copy of the given
ones; an object for the store that was given is the same object in both. -/
structure Draft where
  given : Members
  members : Members

/-- A step in the making of settings. What it did to the draft stays done when it fails. -/
abbrev Drafting := ExceptT Failure (StateM Draft)

/-- A draft with an object in the place of the one for the store. What was given changes with the
members if the object for the store is from there. -/
def Draft.withStore (d : Draft) (store : Members) : Draft :=
  { given :=
      if (Json.member? storeKey d.given).isSome then Json.setMember storeKey (.obj store) d.given
      else d.given
    members := Json.setMember storeKey (.obj store) d.members }

/-- A value put into the object for the store, which is empty if there was none. -/
def putInStore (key : Text) (value : Json) : Drafting Unit := do
  match (Json.member? storeKey (← get).members).getD (.obj []) with
  | .obj store => modify fun d => d.withStore (Json.setMember key value store)
  | _ => throw (.misuse .wrongKind)

/-- The value of a flat key taken out of the members and put in its place. -/
def place (key : Text) (target : Target) : Drafting Unit := do
  match Json.member? key (← get).members with
  | none => pure ()
  | some value =>
    modify fun d => { d with members := Json.removeMember key d.members }
    match target with
    | .own name => modify fun d => { d with members := Json.setMember name value d.members }
    | .ofStore name => putInStore name value

/-- The settings of the store from its members, which may only be the two known ones. -/
def storeOfMembers (members : Members) : Except Failure StoreSettings :=
  if members.all fun m => m.1 == "enabled" || m.1 == "path" then
    .ok { enabled := (Json.member? "enabled" members).getD (.bool true),
          path := (Json.member? "path" members).getD .null }
  else .error (.misuse .wrongKind)

/-- The settings of the store from the value of their member, if there is one. A truth value says
whether results are stored; a value of any other kind stays what it is. -/
def storeOf : Option Json → Except Failure StoreMember
  | none => .ok (.settings {})
  | some (.obj members) => (storeOfMembers members).map .settings
  | some (.bool b) => .ok (.settings { enabled := .bool b })
  | some v => .ok (.other v)

/-- The keys that are not those of settings, in the order of code points. -/
def unknownKeys (keys : List Text) : List Text :=
  sortedNames (keys.filter fun k => !fieldKeys.contains k)

/-- Whether a value names a format of output. -/
def isFormat : Json → Bool
  | .str t => SettingsError.formats.contains t
  | _ => false

/-- The settings from members that are in their places. -/
def ofPlaced (members : Members) : Except Failure Settings := do
  let store ← storeOf (Json.member? storeKey members)
  let unknown := unknownKeys (members.map (·.1))
  if !unknown.isEmpty then throw (.settings (.unknownKeys unknown))
  let value (key : Text) (default : Json) := (Json.member? key members).getD default
  let format := value "output_format" (.str "table")
  if !isFormat format then throw (.telling format.plain? fun t => .settings (.unsupportedFormat t))
  return { language := value "language" .null
           outputFormat := format
           timestampFormat := value "timestamp_format" (.str "%H:%M:%S")
           showExplanation := value "show_explanation" (.bool true)
           debug := value "debug" (.bool false)
           logFile := value "log_file" .null
           store }

/-- The flat keys put in their places one after the other, and the settings that result. -/
def draft : Drafting Settings := do
  forM flatKeys fun flat => place flat.1 flat.2
  match ofPlaced (← get).members with
  | .ok s => return s
  | .error f => throw f

/-- What the members of an object come to, and the draft that is left. -/
def drafted (d : Members) : Except Failure Settings × Draft := draft.run.run ⟨d, d⟩

/-- The settings from the members of an object. -/
def ofMembers (d : Members) : Except Failure Settings := (drafted d).1

/-- The text of a value that is one. -/
def text? : Json → Option Text
  | .str t => some t
  | _ => none

/-- The failure of settings that are a list: of keys that are not known if it holds such keys and
no other value, and else a misuse. -/
def ofItems (items : List Json) : Failure :=
  let keys := items.filterMap text?
  let unknown := unknownKeys keys
  if keys.any (fun k => flatKeys.any (·.1 == k) || k == storeKey) || keys.length != items.length
      || unknown.isEmpty then .misuse .wrongKind
  else .settings (.unknownKeys unknown)

/-- The settings from a value. -/
def ofJson : Json → Except Failure Settings
  | .obj d => ofMembers d
  | .arr items => .error (ofItems items)
  | _ => .error (.misuse .missingPart)

/-- The value that settings were taken from, as it is afterwards. -/
def argumentAfter : Json → Json
  | .obj d => .obj (drafted d).2.given
  | v => v

/-- The file of the store in the current directory. -/
def defaultStorePath (fs : FileSystem) : Path :=
  let file : List Text := [".complexity", "results.json"]
  Path.ofNames (fs.current ++ file)

/-- The file of the store. -/
def storePath (s : Settings) : Run Path := do
  match s.store with
  | .other _ => Run.fail (.misuse .missingPart)
  | .settings store =>
    if store.path.isGiven then
      match store.path with
      | .str t => Run.expandHome (Path.ofText t)
      | _ => Run.fail (.misuse .wrongKind)
    else return defaultStorePath (← Run.files)

/-- The name of a file with settings. -/
def fileName : Text := "complexity_cli_config.json"

/-- The value in the first usable file of a list. A file that is missing, cannot be opened or
holds no JSON is passed over. -/
def firstUsable : List Text → Run Json
  | [] => pure (.obj [])
  | path :: paths => do
    if ← Run.leadsTo (fun _ => true) path then
      tryCatch (Json.load path) fun f =>
        match f with
        | .file _ | .json (.malformed ..) => firstUsable paths
        | _ => Run.fail f
    else firstUsable paths

/-- The files in which settings are looked for when none is given: one in the current directory,
then one in the home directory. -/
def standardFiles (fs : FileSystem) : List Text :=
  [(Path.ofNames (fs.current ++ [fileName])).text,
    (Path.ofNames (fs.home ++ ['.' :: fileName])).text]

/-- The value in a settings file: the given one, which has to exist, or else a standard one. -/
def loadFile (path : Option Text) : Run Json := do
  let fs ← Run.files
  match path.filter fun t => !t.isEmpty with
  | none => firstUsable (standardFiles fs)
  | some t =>
    let explicit := (Path.ofText t).text
    if ← Run.leadsTo (fun _ => true) explicit then firstUsable (explicit :: standardFiles fs)
    else Run.fail (.settings (.fileNotFound explicit))

end Settings

end CostLens
