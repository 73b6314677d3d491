import CostLens.Json.Basic
import CostLens.Number.Integer

/-! # Reading JSON

A reader for JSON texts that also takes the three spellings of numbers that are not finite. What
is wrong with a text is told by its first fault and the place of that fault.
-/
namespace CostLens.Json

/-- What a text lacks where it stops being JSON. -/
inductive Fault
  | value
  | propertyName
  | colon
  | comma
  | unterminatedString
  | controlCharacter
  | badEscape
  | badUnicodeEscape
  | extraData
  | byteOrderMark
  deriving DecidableEq, Repr

def Fault.label : Fault → Text
  | value => "Expecting value"
  | propertyName => "Expecting property name enclosed in double quotes"
  | colon => "Expecting ':' delimiter"
  | comma => "Expecting ',' delimiter"
  | unterminatedString => "Unterminated string starting at"
  | controlCharacter => "Invalid control character at"
  | badEscape => "Invalid \\escape"
  | badUnicodeEscape => "Invalid \\uXXXX escape"
  | extraData => "Extra data"
  | byteOrderMark => "Unexpected UTF-8 BOM (decode using utf-8-sig)"

/-- A value that holds values. -/
inductive Container
  | array
  | object
  deriving DecidableEq, Repr

def Container.label : Container → Text
  | array => "array"
  | object => "object"

/-- How many containers may be open at once. -/
def maxDepth : Nat := 990

/-- Why a text cannot be read as a value, or a value not be put into a text: a fault and its place,
an integer with too many digits, or a container within too many others. How many digits they are and
which container it is, is known where a text is read. -/
inductive ReadError
  | malformed (fault : Fault) (line column offset : Nat)
  | tooManyDigits (count : Option Nat)
  | tooDeep (container : Option Container)
  deriving DecidableEq, Repr

def ReadError.message : ReadError → Text
  | malformed fault line column offset =>
    fault.label ++ ": line " ++ natText line ++ " column " ++ natText column ++ " (char "
      ++ natText offset ++ ")"
  | tooManyDigits count =>
    let found : Text := match count with
      | some n => ": value has " ++ natText n ++ " digits"
      | none => []
    "Exceeds the limit (" ++ natText Integer.maxDigits ++ " digits) for integer string conversion"
      ++ found ++ "; use sys.set_int_max_str_digits() to increase the limit"
  | tooDeep (some container) =>
    "maximum recursion depth exceeded while decoding a JSON " ++ container.label
      ++ " from a unicode string"
  | tooDeep none => "maximum recursion depth exceeded while getting the repr of an object"

namespace Reader

/-- A reading stopped with the text that was left: the place of a fault is known by how much of
the whole was not read yet. -/
inductive Stop
  | fault (fault : Fault) (rest : Text)
  | tooManyDigits (count : Nat)
  | tooDeep (container : Container)

/-- The white space that may stand between tokens. -/
def isSpace (c : Char) : Bool := c == ' ' || c == '\t' || c == '\n' || c == '\r'

def skipSpace (t : Text) : Text := t.dropWhile isSpace

def hexValue? (c : Char) : Option Nat :=
  if '0' ≤ c ∧ c ≤ '9' then some (c.toNat - '0'.toNat)
  else if 'a' ≤ c ∧ c ≤ 'f' then some (c.toNat - 'a'.toNat + 10)
  else if 'A' ≤ c ∧ c ≤ 'F' then some (c.toNat - 'A'.toNat + 10)
  else none

/-- The code unit that four hexadecimal digits spell. -/
def unit? (a b c d : Char) : Option Nat := do
  pure (4096 * (← hexValue? a) + 256 * (← hexValue? b) + 16 * (← hexValue? c) + (← hexValue? d))

/-- What an escape of one letter stands for. -/
def simpleEscape? : Char → Option Char
  | '"' => some '"'
  | '\\' => some '\\'
  | '/' => some '/'
  | 'b' => some '\x08'
  | 'f' => some '\x0c'
  | 'n' => some '\n'
  | 'r' => some '\r'
  | 't' => some '\t'
  | _ => none

/-- The code units of a string up to its closing quote; an escape of four digits must not be the
last thing in the text. `opening` is the text from the opening quote on. -/
def units (opening : Text) : Text → Except Stop (List Nat × Text)
  | [] => .error (.fault .unterminatedString opening)
  | '"' :: rest => .ok ([], rest)
  | '\\' :: 'u' :: a :: b :: c :: d :: next :: rest =>
    match unit? a b c d with
    | none => .error (.fault .badUnicodeEscape ('u' :: a :: b :: c :: d :: next :: rest))
    | some u => do
      let (us, after) ← units opening (next :: rest)
      pure (u :: us, after)
  | '\\' :: 'u' :: rest => .error (.fault .badUnicodeEscape ('u' :: rest))
  | '\\' :: e :: rest =>
    match simpleEscape? e with
    | none => .error (.fault .badEscape ('\\' :: e :: rest))
    | some c => do
      let (us, after) ← units opening rest
      pure (c.toNat :: us, after)
  | ['\\'] => .error (.fault .unterminatedString opening)
  | c :: rest =>
    if c.toNat < 0x20 then .error (.fault .controlCharacter (c :: rest))
    else do
      let (us, after) ← units opening rest
      pure (c.toNat :: us, after)

/-- The text of code units: a high and a low surrogate in a row are one character, and one that
stands alone is replaced. -/
def ofUnits : List Nat → Text
  | [] => []
  | [u] => [if 0xd800 ≤ u ∧ u ≤ 0xdfff then '\ufffd' else Char.ofNat u]
  | u :: v :: us =>
    if 0xd800 ≤ u ∧ u ≤ 0xdbff ∧ 0xdc00 ≤ v ∧ v ≤ 0xdfff then
      Char.ofNat (0x10000 + (u - 0xd800) * 0x400 + (v - 0xdc00)) :: ofUnits us
    else (if 0xd800 ≤ u ∧ u ≤ 0xdfff then '\ufffd' else Char.ofNat u) :: ofUnits (v :: us)

/-- A string, from behind its opening quote. -/
def string (rest : Text) : Except Stop (Text × Text) := do
  let (us, after) ← units ('"' :: rest) rest
  pure (ofUnits us, after)

/-- The value of a row of ASCII digits. -/
def digitsValue (digits : Text) : Nat :=
  digits.foldl (fun n c => 10 * n + (c.toNat - '0'.toNat)) 0

/-- The fraction at a position: digits behind a point. -/
def fraction (t : Text) : Text × Text :=
  match t with
  | '.' :: rest =>
    let digits := rest.takeWhile Char.isDigit
    if digits.isEmpty then ([], t) else (digits, rest.drop digits.length)
  | _ => ([], t)

/-- The exponent at a position. -/
def exponent? (t : Text) : Option (Int × Text) :=
  match t with
  | e :: rest =>
    if e = 'e' ∨ e = 'E' then
      let (negative, rest) : Bool × Text := match rest with
        | '-' :: r => (true, r)
        | '+' :: r => (false, r)
        | r => (false, r)
      let digits := rest.takeWhile Char.isDigit
      if digits.isEmpty then none
      else
        let n : Int := digitsValue digits
        some (if negative then -n else n, rest.drop digits.length)
    else none
  | [] => none

/-- The digits before the point: a zero alone, or digits that do not begin with one. -/
def wholeDigits (t : Text) : Text :=
  match t with
  | '0' :: _ => ['0']
  | _ => t.takeWhile Char.isDigit

/-- The number that begins at a position. With a fraction or an exponent it is a double. -/
def number (start : Text) : Except Stop (Json × Text) :=
  let (negative, t) : Bool × Text := match start with
    | '-' :: rest => (true, rest)
    | _ => (false, start)
  let whole := wholeDigits t
  if whole.isEmpty then .error (.fault .value start)
  else
    let (digits, afterFraction) := fraction (t.drop whole.length)
    let shift : Int := -(digits.length : Int)
    let all := whole ++ digits
    match exponent? afterFraction with
    | some (e, rest) =>
      .ok (.float (.ofDecimal negative (digitsValue all) all.length (e + shift)), rest)
    | none =>
      if digits.isEmpty then
        if Integer.maxDigits < whole.length then .error (.tooManyDigits whole.length)
        else
          let n : Int := digitsValue whole
          .ok (.int (if negative then -n else n), afterFraction)
      else .ok (.float (.ofDecimal negative (digitsValue all) all.length shift), afterFraction)

def words : List (Text × Json) :=
  [("null", .null), ("true", .bool true), ("false", .bool false), ("NaN", .float .nan),
    ("Infinity", .float (.infinity false)), ("-Infinity", .float (.infinity true))]

/-- The word or number that begins at a position. -/
def scalar (t : Text) : Except Stop (Json × Text) :=
  match words.findSome? fun w => (w.1.isPrefixOf? t).map fun rest => (w.2, rest) with
  | some found => .ok found
  | none => number t

mutual

/-- A value, which may open containers as deep as there is room for. The fuel bounds the steps:
twice the length of the text is enough, since a character is read at every other step. -/
def value : (room fuel : Nat) → Text → Except Stop (Json × Text)
  | _, 0, t => .error (.fault .value t)
  | room, fuel + 1, t =>
    match t, room with
    | [], _ => .error (.fault .value [])
    | '"' :: rest, _ => do
      let (s, after) ← string rest
      pure (.str s, after)
    | '[' :: _, 0 => .error (.tooDeep .array)
    | '[' :: rest, room + 1 =>
      match skipSpace rest with
      | ']' :: after => .ok (.arr [], after)
      | inside => do
        let (items, after) ← items room fuel inside
        pure (.arr items, after)
    | '\x7b' :: _, 0 => .error (.tooDeep .object)
    | '\x7b' :: rest, room + 1 =>
      match skipSpace rest with
      | '\x7d' :: after => .ok (.obj [], after)
      | inside => do
        let (pairs, after) ← pairs room fuel inside
        pure (.obj (membersOf pairs), after)
    | _, _ => scalar t

/-- The items of an array, the first of which begins here. -/
def items : (room fuel : Nat) → Text → Except Stop (List Json × Text)
  | _, 0, t => .error (.fault .value t)
  | room, fuel + 1, t => do
    let (v, after) ← value room fuel t
    match skipSpace after with
    | ']' :: rest => pure ([v], rest)
    | ',' :: rest =>
      let (vs, last) ← items room fuel (skipSpace rest)
      pure (v :: vs, last)
    | rest => .error (.fault .comma rest)

/-- The members of an object, the first of which begins here. -/
def pairs : (room fuel : Nat) → Text → Except Stop (List (Text × Json) × Text)
  | _, 0, t => .error (.fault .value t)
  | room, fuel + 1, t =>
    match t with
    | '"' :: rest => do
      let (key, afterKey) ← string rest
      match skipSpace afterKey with
      | ':' :: afterColon =>
        let (v, after) ← value room fuel (skipSpace afterColon)
        match skipSpace after with
        | '\x7d' :: rest => pure ([(key, v)], rest)
        | ',' :: rest =>
          let (ps, last) ← pairs room fuel (skipSpace rest)
          pure ((key, v) :: ps, last)
        | rest => .error (.fault .comma rest)
      | rest => .error (.fault .colon rest)
    | _ => .error (.fault .propertyName t)

end

/-- The value that a whole text spells. -/
def whole (t : Text) : Except Stop Json :=
  match t with
  | '\ufeff' :: _ => .error (.fault .byteOrderMark t)
  | _ => do
    let (v, after) ← value maxDepth (2 * t.length + 2) (skipSpace t)
    match skipSpace after with
    | [] => pure v
    | rest => .error (.fault .extraData rest)

/-- A stopped reading as an error with its place. -/
def locate (t : Text) : Stop → ReadError
  | .tooManyDigits count => .tooManyDigits (some count)
  | .tooDeep container => .tooDeep (some container)
  | .fault fault rest =>
    let before := t.take (t.length - rest.length)
    let column := (before.reverse.takeWhile (· != '\n')).length + 1
    .malformed fault (before.count '\n' + 1) column before.length

end Reader

def read (t : Text) : Except ReadError Json := (Reader.whole t).mapError (Reader.locate t)

end CostLens.Json
