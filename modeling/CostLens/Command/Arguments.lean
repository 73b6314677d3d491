import CostLens.Request

/-! # Command lines

A command line names a command, its options and at most one file. Options may stand before and
after the file; a value stands behind its option, as the next argument or attached to it.
-/
namespace CostLens

inductive Command
  | scan
  | analyze
  | lens
  | results
  deriving DecidableEq, Repr

/-- An option with a value. -/
inductive ValueOption
  | language
  | function
  | first
  | last
  | config
  | logFile
  deriving DecidableEq, Repr

/-- An option without a value. -/
inductive Flag
  | json
  | noStore
  | debug
  | verbose
  deriving DecidableEq, Repr

inductive CommandOption
  | value (o : ValueOption)
  | flag (f : Flag)
  deriving DecidableEq, Repr

namespace Command

def all : List Command := [scan, analyze, lens, results]

def name : Command → Text
  | scan => "scan"
  | analyze => "analyze"
  | lens => "lens"
  | results => "results"

def ofName? (t : Text) : Option Command := all.find? fun c => c.name == t

/-- The options of every command, by their spellings. -/
def commonOptions : List (Text × CommandOption) :=
  [("--config", .value .config), ("--debug", .flag .debug), ("--verbose", .flag .verbose),
    ("-v", .flag .verbose), ("--log-file", .value .logFile)]

def languageOptions : List (Text × CommandOption) :=
  [("--language", .value .language), ("-l", .value .language)]

def jsonOptions : List (Text × CommandOption) := [("--json", .flag .json)]

/-- The spellings of the options for what is analysed, and for keeping no results. -/
def targetOptions : List (Text × CommandOption) :=
  [("--function", .value .function), ("-f", .value .function), ("--start", .value .first),
    ("--end", .value .last), ("--no-store", .flag .noStore)]

/-- The options of a command, by their spellings. -/
def options : Command → List (Text × CommandOption)
  | scan => languageOptions ++ jsonOptions ++ commonOptions
  | analyze => languageOptions ++ jsonOptions ++ targetOptions ++ commonOptions
  | lens => languageOptions ++ commonOptions
  | results => jsonOptions ++ commonOptions

def needsFile : Command → Bool
  | results => false
  | _ => true

end Command

/-- What a command line asks for. Of an option that is given twice, the last value counts. -/
structure Invocation where
  command : Command
  files : List Text := []
  values : List (ValueOption × Text) := []
  flags : List Flag := []
  deriving DecidableEq, Repr

namespace Invocation

def value? (i : Invocation) (o : ValueOption) : Option Text := i.values.lookup o

/-- The value of an option, unless it is empty. -/
def given? (i : Invocation) (o : ValueOption) : Option Text :=
  (i.value? o).filter fun t => !t.isEmpty

def has (i : Invocation) (f : Flag) : Bool := i.flags.contains f

def file? (i : Invocation) : Option Text := i.files.head?

/-- The functions and lines that are asked for. -/
def target (i : Invocation) : Request.Target where
  function := i.value? .function
  first := i.value? .first
  last := i.value? .last

def withValue (i : Invocation) (o : ValueOption) (t : Text) : Invocation :=
  { i with values := (o, t) :: i.values }

def withFlag (i : Invocation) (f : Flag) : Invocation := { i with flags := f :: i.flags }

def withFile (i : Invocation) (t : Text) : Invocation := { i with files := i.files ++ [t] }

/-- What an argument with options leads to. -/
inductive Progress
  /-- All of it was used. -/
  | complete (i : Invocation)
  /-- The next argument is the value of an option. -/
  | awaiting (i : Invocation) (o : ValueOption)

/-- The options in an argument of single letters, from behind the hyphen. A letter whose option
takes a value takes the rest of the argument, if there is any. -/
def readLetters (i : Invocation) : Text → Option Progress
  | [] => some (.complete i)
  | c :: rest =>
    match i.command.options.lookup ['-', c] with
    | none => none
    | some (.flag f) => (i.withFlag f).readLetters rest
    | some (.value o) =>
      if rest.isEmpty then some (.awaiting i o) else some (.complete (i.withValue o rest))

/-- The long option in an argument, with a value behind an equals sign or without. -/
def readLong (i : Invocation) (t : Text) : Option Progress :=
  let name := t.takeWhile (· != '=')
  match i.command.options.lookup name, t.drop name.length with
  | some (.value o), [] => some (.awaiting i o)
  | some (.value o), _ :: value => some (.complete (i.withValue o value))
  | some (.flag f), [] => some (.complete (i.withFlag f))
  | _, _ => none

/-- The options in an argument that begins with a hyphen. -/
def readOption (i : Invocation) (t : Text) : Option Progress :=
  if startsWith t "--" then i.readLong t else i.readLetters (t.drop 1)

/-- The arguments of a command. Behind two hyphens alone, everything is a file. -/
def readArguments (i : Invocation) : List Text → Option Invocation
  | [] => some i
  | t :: rest =>
    if t = "--" then some (rest.foldl withFile i)
    else if startsWith t "-" && t.length != 1 then
      match i.readOption t with
      | none => none
      | some (.complete j) => j.readArguments rest
      | some (.awaiting j o) =>
        match rest with
        | [] => none
        | v :: more => (j.withValue o v).readArguments more
    else (i.withFile t).readArguments rest

/-- Whether there are as many files as the command takes. -/
def isComplete (i : Invocation) : Bool :=
  decide (i.files.length ≤ 1) && (!i.command.needsFile || i.files.length == 1)

/-- What a command line asks for. Two hyphens may stand before the command. -/
def ofArguments? (arguments : List Text) : Option Invocation :=
  let arguments := if arguments.head? = some "--" then arguments.drop 1 else arguments
  match arguments with
  | [] => none
  | name :: rest =>
    match Command.ofName? name with
    | none => none
    | some command => (readArguments { command } rest).filter isComplete

end Invocation

end CostLens
