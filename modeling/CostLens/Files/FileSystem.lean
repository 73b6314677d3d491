import CostLens.Files.Path

/-! # Files

The files that a run can see, as a value: absolute names, each with the bytes of a file or as a
directory. A path is followed name by name, so it has to lead through existing directories.
-/
namespace CostLens

/-- What stands under a name. -/
inductive Entry
  | file (content : Bytes)
  | directory
  deriving DecidableEq, Repr

def Entry.isFile : Entry → Bool
  | file _ => true
  | directory => false

/-- Why a file operation is refused. -/
inductive FileFault
  | notFound
  | exists
  | notDirectory
  | isDirectory
  | nameTooLong
  deriving DecidableEq, Repr

/-- A refused file operation and the path it was asked for. -/
structure FileError where
  fault : FileFault
  path : Text
  deriving DecidableEq, Repr

def FileError.message (e : FileError) : Text :=
  (match e.fault with
    | .notFound => "[Errno 2] No such file or directory: ".toList
    | .exists => "[Errno 17] File exists: ".toList
    | .notDirectory => "[Errno 20] Not a directory: ".toList
    | .isDirectory => "[Errno 21] Is a directory: ".toList
    | .nameTooLong => "[Errno 36] File name too long: ".toList) ++ Quoted.text e.path

/-- Absolute names behind their number. The names of what lies deep begin with the names of all
that it lies in, so the number tells most places apart at once. -/
abbrev Place := Nat × List Text

def Place.ofNames (names : List Text) : Place := (names.length, names)

theorem Place.ofNames_inj (a b : List Text) : Place.ofNames a = Place.ofNames b ↔ a = b := by
  simp only [Place.ofNames, Prod.mk.injEq]
  exact ⟨And.right, fun h => ⟨congrArg List.length h, h⟩⟩

/-- The files, by absolute names, the names of the current and of the home directory, and the home
directories of those who are known by name. -/
structure FileSystem where
  entries : List (Place × Entry)
  current : List Text
  home : List Text
  accounts : List (Text × List Text) := []
  deriving DecidableEq, Repr

namespace FileSystem

/-- What stands under absolute names; the root is a directory. -/
def entry? (fs : FileSystem) (names : List Text) : Option Entry :=
  if names.isEmpty then some .directory else fs.entries.lookup (.ofNames names)

/-- An entry put under absolute names, in the place of what stood there. -/
def put (fs : FileSystem) (names : List Text) (e : Entry) : FileSystem :=
  { fs with entries := (.ofNames names, e) :: fs.entries.filter fun p => p.1 != .ofNames names }

/-- What stands under absolute names removed, with all that it holds. -/
def remove (fs : FileSystem) (names : List Text) : FileSystem :=
  { fs with entries := fs.entries.filter fun p => !names.isPrefixOf p.1.2 }

/-- The home directory of the one who has a name, or one's own if the name is empty. -/
def homeOf? (fs : FileSystem) (owner : Text) : Option (List Text) :=
  if owner.isEmpty then some fs.home else fs.accounts.lookup owner

/-- A path with the home directory put in for a tilde. `none` when it is the home directory of
somebody who is not known. -/
def expandHome? (fs : FileSystem) (p : Path) : Option Path :=
  match p.homeOwner? with
  | none => some p
  | some owner => (fs.homeOf? owner).map p.withHome

/-- The absolute names that names lead to from a directory. Whatever is passed through has to be a
directory; the end need not exist. -/
def follow (fs : FileSystem) : List Text → List Text → Except FileFault (List Text)
  | place, [] => .ok place
  | place, name :: names =>
    match fs.entry? place with
    | none => .error .notFound
    | some (.file _) => .error .notDirectory
    | some .directory =>
      if name = ".." then fs.follow place.dropLast names
      else if name.isEmpty || name == "." then fs.follow place names
      else if Path.maxNameBytes < (Utf8.encode name).length then .error .nameTooLong
      else fs.follow (place ++ [name]) names

/-- The absolute names that some pieces of a path lead to, if the path can be followed at all: it
is not empty, has no null character in it and is not too long. -/
def locatePieces (fs : FileSystem) (path : Text) (pieces : List Text) :
    Except FileFault (List Text) :=
  if path.isEmpty || path.contains '\x00' then .error .notFound
  else if Path.maxBytes < (Utf8.encode path).length then .error .nameTooLong
  else fs.follow (if startsWith path "/" then [] else fs.current) pieces

/-- The absolute names that a path leads to. The pieces of its text are followed as they are
written, so a slash at the end asks for a directory. -/
def locate (fs : FileSystem) (path : Text) : Except FileFault (List Text) :=
  fs.locatePieces path (Path.splitSlashes path)

/-- The absolute names of the file to which a path leads. A name with a slash behind it is that of
a directory, whatever stands there; an empty piece asks for the directory around it. -/
def locateFile (fs : FileSystem) (path : Text) : Except FileFault (List Text) :=
  match Path.beforeSlashed? path with
  | none => fs.locate path
  | some outer => do
    let _ ← fs.locatePieces path (outer ++ [[]])
    .error .isDirectory

def find? (fs : FileSystem) (path : Text) : Option Entry :=
  match fs.locate path with
  | .ok names => fs.entry? names
  | .error _ => none

def doesExist (fs : FileSystem) (path : Text) : Bool := (fs.find? path).isSome

/-- Whether a path leads to an entry of a kind. A path that is too long is an error, any other one
that leads nowhere is not. -/
def leadsTo (fs : FileSystem) (kind : Entry → Bool) (path : Text) : Except FileError Bool :=
  match fs.locate path with
  | .ok names => .ok ((fs.entry? names).any kind)
  | .error .nameTooLong => .error ⟨.nameTooLong, path⟩
  | .error _ => .ok false

def read (fs : FileSystem) (path : Text) : Except FileError Bytes :=
  match fs.locate path with
  | .error fault => .error ⟨fault, path⟩
  | .ok names =>
    match fs.entry? names with
    | none => .error ⟨.notFound, path⟩
    | some .directory => .error ⟨.isDirectory, path⟩
    | some (.file content) => .ok content

/-- A file with a new content: a function of the old one, which is empty for a new file. -/
def modify (fs : FileSystem) (path : Text) (f : Bytes → Bytes) : Except FileError FileSystem :=
  match fs.locateFile path with
  | .error fault => .error ⟨fault, path⟩
  | .ok names =>
    match fs.entry? names with
    | none => .ok (fs.put names (.file (f [])))
    | some .directory => .error ⟨.isDirectory, path⟩
    | some (.file content) => .ok (fs.put names (.file (f content)))

/-- A file with the given content. -/
def write (fs : FileSystem) (path : Text) (content : Bytes) : Except FileError FileSystem :=
  fs.modify path fun _ => content

/-- A directory made at the absolute names that a path was found to lead to, unless there is one;
and these names. -/
def settle (fs : FileSystem) (path : Text) :
    Except FileFault (List Text) → FileSystem × Except FileError (List Text)
  | .error fault => (fs, .error ⟨fault, path⟩)
  | .ok names =>
    match fs.entry? names with
    | none => (fs.put names .directory, .ok names)
    | some .directory => (fs, .ok names)
    | some (.file _) => (fs, .error ⟨.exists, path⟩)

/-- The directory at a path made, unless there is one. -/
def ensureDirectory (fs : FileSystem) (path : Text) : FileSystem × Except FileError (List Text) :=
  fs.settle path (fs.locate path)

/-- A directory and those of its parents that are missing made, from its names in reverse. What was
made before a refusal stays. A parent that is there without being a directory is not the reason
that is given: the next name below it is. -/
def makeDirectoriesFrom (fs : FileSystem) (slashes : Nat) :
    List Text → FileSystem × Except FileError (List Text)
  | [] => fs.ensureDirectory (Path.text ⟨slashes, []⟩)
  | name :: outer =>
    let path : Path := ⟨slashes, (name :: outer).reverse⟩
    if slashes == 0 && outer.isEmpty || fs.doesExist path.parent.text then
      fs.ensureDirectory path.text
    else
      match fs.makeDirectoriesFrom slashes outer with
      | (made, .ok place) => made.settle path.text (made.follow place [name])
      | (made, .error e) =>
        if e.fault = .exists then made.ensureDirectory path.text else (made, .error e)

/-- How many directories, one within the other, can be made at once. -/
def maxMissing : Nat := 980

/-- How many directories are to be made for a path, from its names in reverse. -/
def missingFrom (fs : FileSystem) (slashes : Nat) : List Text → Nat
  | [] => 1
  | name :: outer =>
    let path : Path := ⟨slashes, (name :: outer).reverse⟩
    if slashes == 0 && outer.isEmpty || fs.doesExist path.parent.text then 1
    else fs.missingFrom slashes outer + 1

/-- Whether more directories are missing for a path than can be made at once. -/
def lacksTooMany (fs : FileSystem) (p : Path) : Bool :=
  decide (maxMissing < fs.missingFrom p.slashes p.names.reverse)

/-- A directory and those of its parents that are missing made. -/
def makeDirectories (fs : FileSystem) (p : Path) :
    FileSystem × Except FileError (List Text) :=
  fs.makeDirectoriesFrom p.slashes p.names.reverse

end FileSystem

end CostLens
