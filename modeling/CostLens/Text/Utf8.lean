import CostLens.Text.Quoted

/-! # UTF-8

Texts as bytes and back. Bytes that are no text are refused at the first fault, with the bytes
that belong to it.
-/
namespace CostLens

/-- The content of a file. -/
abbrev Bytes := List UInt8

namespace Utf8

def byte (n : Nat) : UInt8 := UInt8.ofNat n

def encodeChar (c : Char) : Bytes :=
  let n := c.toNat
  if n < 0x80 then [byte n]
  else if n < 0x800 then [byte (0xc0 + n / 0x40), byte (0x80 + n % 0x40)]
  else if n < 0x10000 then
    [byte (0xe0 + n / 0x1000), byte (0x80 + n / 0x40 % 0x40), byte (0x80 + n % 0x40)]
  else
    [byte (0xf0 + n / 0x40000), byte (0x80 + n / 0x1000 % 0x40), byte (0x80 + n / 0x40 % 0x40),
      byte (0x80 + n % 0x40)]

def encode (t : Text) : Bytes := t.flatMap encodeChar

/-- The bytes of a text, each as the character with its number. -/
def octets (t : Text) : Text := (encode t).map fun b => Char.ofNat b.toNat

/-- Why bytes are no text. -/
inductive Reason
  | invalidStart
  | invalidContinuation
  | unexpectedEnd
  deriving DecidableEq, Repr

def Reason.label : Reason → Text
  | invalidStart => "invalid start byte"
  | invalidContinuation => "invalid continuation byte"
  | unexpectedEnd => "unexpected end of data"

/-- The first bytes that are no character: where they begin, the first of them, how many they are,
and why. -/
structure Fault where
  start : Nat
  first : UInt8
  count : Nat
  reason : Reason
  deriving DecidableEq, Repr

def Fault.message (f : Fault) : Text :=
  "'utf-8' codec can't decode " ++
    (if f.count = 1 then
      "byte 0x".toList ++ Quoted.hex 2 f.first.toNat ++ " in position " ++ natText f.start
    else
      "bytes in position ".toList ++ natText f.start ++ "-" ++ natText (f.start + f.count - 1))
    ++ ": " ++ f.reason.label

/-- What the first byte of a character says: how many bytes follow, the bounds of the next one,
and the leading bits. -/
structure Lead where
  following : Nat
  low : Nat
  high : Nat
  bits : Nat

/-- What a first byte says, unless no character begins with it. -/
def lead? (b : UInt8) : Option Lead :=
  let n := b.toNat
  if n < 0x80 then some ⟨0, 0x80, 0xbf, n⟩
  else if n < 0xc2 then none
  else if n < 0xe0 then some ⟨1, 0x80, 0xbf, n - 0xc0⟩
  else if n < 0xf0 then
    some ⟨2, if n = 0xe0 then 0xa0 else 0x80, if n = 0xed then 0x9f else 0xbf, n - 0xe0⟩
  else if n < 0xf5 then
    some ⟨3, if n = 0xf0 then 0x90 else 0x80, if n = 0xf4 then 0x8f else 0xbf, n - 0xf0⟩
  else none

/-- The number that a lead and the bytes behind it make, and how many bytes it took; or how many
bytes were good, and why not more. -/
def follow (lead : Lead) (used : Nat) : Nat → Bytes → Except (Nat × Reason) (Nat × Nat)
  | 0, _ => .ok (lead.bits, used)
  | _ + 1, [] => .error (used, .unexpectedEnd)
  | k + 1, b :: bs =>
    if lead.low ≤ b.toNat ∧ b.toNat ≤ lead.high then
      follow ⟨lead.following, 0x80, 0xbf, 0x40 * lead.bits + (b.toNat - 0x80)⟩ (used + 1) k bs
    else .error (used, .invalidContinuation)

/-- The character at the front and how many bytes it takes. -/
def next (b : UInt8) (bs : Bytes) : Except (Nat × Reason) (Char × Nat) :=
  match lead? b with
  | none => .error (1, .invalidStart)
  | some lead => (follow lead 1 lead.following bs).map fun r => (Char.ofNat r.1, r.2)

/-- The text of bytes from a place on, of which the first `skip` belong to a character already
read. -/
def decodeFrom : Nat → Nat → Bytes → Except Fault Text
  | _, _, [] => .ok []
  | place, skip + 1, _ :: bs => decodeFrom (place + 1) skip bs
  | place, 0, b :: bs =>
    match next b bs with
    | .error (count, reason) => .error ⟨place, b, count, reason⟩
    | .ok (c, count) => (decodeFrom (place + 1) (count - 1) bs).map (c :: ·)

def decode (bytes : Bytes) : Except Fault Text := decodeFrom 0 0 bytes

/-- A carriage return, with a line feed behind it or without, turned into a line feed. -/
def foldNewlines : Text → Text
  | [] => []
  | '\r' :: '\n' :: t => '\n' :: foldNewlines t
  | '\r' :: t => '\n' :: foldNewlines t
  | c :: t => c :: foldNewlines t

/-- The text of a file: carriage returns are folded into line feeds. -/
def readText (bytes : Bytes) : Except Fault Text := (decode bytes).map foldNewlines

end Utf8

end CostLens
