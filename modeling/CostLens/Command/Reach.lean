import CostLens.Command.Options

/-! # The files that a command can reach

A command reads settings, a document and the store, and writes the store and the log. Which files
these are depends on the settings, so they are known in two steps.
-/
namespace CostLens.Command

/-- The paths that lead to a path, itself included. -/
def ancestry (p : Path) : List Path :=
  (List.range (p.names.length + 1)).map fun k => ⟨p.slashes, p.names.take k⟩

/-- The files with settings. -/
def settingsPaths (i : Invocation) (fs : FileSystem) : List Path :=
  ((i.given? .config).toList ++ Settings.standardFiles fs).map Path.ofText

/-- A path with the home directory put in, if that is known. -/
def homePath? (fs : FileSystem) (t : Text) : Option Path := fs.expandHome? (Path.ofText t)

/-- The document, the store and the log file, by the settings found in a world. -/
def workPaths (i : Invocation) (w : World) : List Path :=
  let document := i.file?.toList.filterMap (homePath? w.files)
  let configured : List Path :=
    match Settings.loadFile (i.value? .config) w with
    | (.ok v, _) =>
      match Settings.ofJson v with
      | .ok s =>
        let store := match s.storePath w with
          | (.ok p, _) => [p]
          | (.error _, _) => []
        let log := match Options.logFile i s with
          | .ok (some t) => (homePath? w.files t).toList.map (Log.absolutePath w.files)
          | _ => []
        store ++ log
      | .error _ => []
    | (.error _, _) => []
  document ++ configured

end CostLens.Command
