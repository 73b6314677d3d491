import CostLens.Files.FileSystem
import CostLens.Json.Reader
import CostLens.Source.Language

/-! # Failures

Everything that can go wrong, by cause, and the message for each cause. A failure of one of the
program's own kinds ends a command in an orderly way; any other one breaks it off.
-/
namespace CostLens

/-- Why settings are refused. -/
inductive SettingsError
  | fileNotFound (path : Text)
  | unknownKeys (keys : List Text)
  | unsupportedFormat (format : Text)
  | unsupportedLanguage (name : Text)
  deriving DecidableEq, Repr

/-- Why a request is refused. -/
inductive RequestError
  | notALine (name shown : Text)
  | belowZero (name : Text) (number : Int)
  | emptySpan (first last : Int)
  | pastEnd (last count : Int)
  | halfSpan
  | noFunctionAt (line : Int)
  | noFunctionNamed (name path : Text) (available : List Text)
  deriving DecidableEq, Repr

/-- Why a document cannot be read. -/
inductive DocumentError
  | notFound (path : Text)
  | undecodable (path : Text) (fault : Utf8.Fault)
  | unreadable (path : Text) (error : FileError)
  deriving DecidableEq, Repr

/-- Why the stored results cannot be used. -/
inductive StoreError
  | malformedRecord (shown : Text)
  | corrupt (path : Text)
  | unparsable (path : Text) (error : Json.ReadError)
  | undecodable (path : Text) (fault : Utf8.Fault)
  | unreadable (path : Text) (error : FileError)
  | unsaved (path : Text) (error : FileError)
  deriving DecidableEq, Repr

/-- A value that was used for something that its kind does not allow. -/
inductive Misuse
  /-- A value of the wrong kind. -/
  | wrongKind
  /-- A part that values of its kind do not have. -/
  | missingPart
  /-- A time format that is no text. -/
  | formatKind (kind : Text)
  deriving DecidableEq, Repr

/-- Everything that can go wrong. -/
inductive Failure
  | settings (error : SettingsError)
  | request (error : RequestError)
  | document (error : DocumentError)
  | store (error : StoreError)
  | file (error : FileError)
  | json (error : Json.ReadError)
  | encoding (fault : Utf8.Fault)
  | misuse (error : Misuse)
  /-- A cell of a table that cannot be shown. -/
  | unshowable (kind : Text)
  /-- An infinite number in the place of an integer. -/
  | infiniteInteger
  /-- A time outside the years that can be written. -/
  | outOfYears
  /-- The home directory of somebody who is not known. -/
  | noHome
  /-- A path with a null character in it. -/
  | nullInPath
  /-- A directory with too many parents to be made. -/
  | tooManyMissing
  deriving DecidableEq, Repr

/-- The failure that tells of a value. When the value cannot be put into the message, that is the
failure instead. -/
def Failure.telling (value : Except Json.ReadError Text) (failure : Text → Failure) : Failure :=
  match value with
  | .ok t => failure t
  | .error e => .json e

namespace SettingsError

def formats : List Text := ["table", "json"]

def message : SettingsError → Text
  | fileNotFound path => "Config file not found: " ++ path
  | unknownKeys keys => "Unknown configuration keys: " ++ joinWith ", " keys
  | unsupportedFormat format =>
    "Unsupported output format: '" ++ format ++ "'. Expected one of: " ++ joinWith ", " formats
  | unsupportedLanguage name => Language.unsupportedMessage name

end SettingsError

def RequestError.message : RequestError → Text
  | notALine name shown => "Invalid " ++ name ++ ": expected a line number, got " ++ shown
  | belowZero name number =>
    "Invalid " ++ name ++ ": line numbers start at 0, got " ++ intText number
  | emptySpan first last =>
    "Invalid span: end line " ++ intText last ++ " must be greater than start line "
      ++ intText first
  | pastEnd last count =>
    "Invalid span: end line " ++ intText last ++ " is past the end of the document ("
      ++ intText count ++ " lines)"
  | halfSpan => "--start and --end must be given together"
  | noFunctionAt line =>
    "No function starts at line " ++ intText line ++ "; pass --function to name the span"
  | noFunctionNamed name path available =>
    "No function named '" ++ name ++ "' in " ++ path ++ ". Available: "
      ++ (if available.isEmpty then "none".toList else joinWith ", " available)

def DocumentError.message : DocumentError → Text
  | notFound path => "Source file not found: " ++ path
  | undecodable path fault => "Could not read " ++ path ++ ": " ++ fault.message
  | unreadable path error => "Could not read " ++ path ++ ": " ++ error.message

def StoreError.message : StoreError → Text
  | malformedRecord shown => "Malformed analysis record: " ++ shown
  | corrupt path => "Result store is corrupt: " ++ path
  | unparsable path error => "Result store is corrupt: " ++ path ++ ": " ++ error.message
  | undecodable path fault => "Result store is corrupt: " ++ path ++ ": " ++ fault.message
  | unreadable path error => "Could not read result store " ++ path ++ ": " ++ error.message
  | unsaved path error => "Could not save result store to " ++ path ++ ": " ++ error.message

/-- The message of a misuse. Only that of a time format is ever shown. -/
def Misuse.message : Misuse → Text
  | wrongKind => "value of the wrong kind"
  | missingPart => "value without such a part"
  | formatKind kind => "strftime() argument 1 must be str, not " ++ kind

def Failure.message : Failure → Text
  | settings e => e.message
  | request e => e.message
  | document e => e.message
  | store e => e.message
  | file e => e.message
  | json e => e.message
  | encoding f => f.message
  | misuse e => e.message
  | unshowable kind =>
    "unable to render " ++ kind ++ "; a string or other renderable object is required"
  | infiniteInteger => "cannot convert float infinity to integer"
  | outOfYears => "date value out of range"
  | noHome => "Could not determine home directory."
  | nullInPath => "embedded null byte"
  | tooManyMissing => "maximum recursion depth exceeded"

end CostLens
