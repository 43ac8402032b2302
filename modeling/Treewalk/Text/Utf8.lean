/-!
Strict decoding of UTF-8. A file that is not UTF-8 is refused with its first fault: where the bad
sequence starts, how many of its bytes were read as one, and why it is bad.
-/

namespace Treewalk.Text

/-- Why a byte sequence is not UTF-8. -/
inductive Utf8Reason where
  | startByte
  | continuationByte
  | endOfData
deriving DecidableEq, Repr

def Utf8Reason.text : Utf8Reason → String
  | .startByte => "invalid start byte"
  | .continuationByte => "invalid continuation byte"
  | .endOfData => "unexpected end of data"

/-- The first bad sequence of a file: `length` bytes from `start` on, the first one being `byte`. -/
structure Utf8Fault where
  start : Nat
  length : Nat
  byte : Nat
  reason : Utf8Reason
deriving DecidableEq, Repr

/-- What a lead byte promises: how many bytes follow, the bits it carries, and the bounds of the
byte after it. -/
structure Utf8Lead where
  following : Nat
  bits : Nat
  low : Nat
  high : Nat

/-- The lead bytes of UTF-8. The bounds rule out overlong forms, surrogates and code points past
`U+10FFFF`. -/
def Utf8Lead.ofByte? (b : Nat) : Option Utf8Lead :=
  if b < 0x80 then some ⟨0, b, 0x80, 0xBF⟩
  else if b < 0xC2 then none
  else if b < 0xE0 then some ⟨1, b - 0xC0, 0x80, 0xBF⟩
  else if b = 0xE0 then some ⟨2, 0, 0xA0, 0xBF⟩
  else if b = 0xED then some ⟨2, 0xD, 0x80, 0x9F⟩
  else if b < 0xF0 then some ⟨2, b - 0xE0, 0x80, 0xBF⟩
  else if b = 0xF0 then some ⟨3, 0, 0x90, 0xBF⟩
  else if b < 0xF4 then some ⟨3, b - 0xF0, 0x80, 0xBF⟩
  else if b = 0xF4 then some ⟨3, 4, 0x80, 0x8F⟩
  else none

/-- Reads the bytes that a lead byte promises. `taken` bytes of the sequence were read already. On
success the code point and the rest, otherwise the length of the bad sequence and the reason. -/
def utf8Tail : (following taken bits low high : Nat) → List Nat →
    Except (Nat × Utf8Reason) (Nat × List Nat)
  | 0, _, bits, _, _, rest => .ok (bits, rest)
  | _ + 1, taken, _, _, _, [] => .error (taken, .endOfData)
  | n + 1, taken, bits, low, high, b :: rest =>
    if low ≤ b ∧ b ≤ high then utf8Tail n (taken + 1) (bits * 64 + (b - 0x80)) 0x80 0xBF rest
    else .error (taken, .continuationByte)

/-- Decodes from byte `start` on; `fuel` bounds the number of characters. -/
def decodeUtf8From : (fuel start : Nat) → List Nat → Except Utf8Fault (List Char)
  | 0, _, _ => .ok []
  | _ + 1, _, [] => .ok []
  | fuel + 1, start, b :: rest =>
    match Utf8Lead.ofByte? b with
    | none => .error ⟨start, 1, b, .startByte⟩
    | some lead =>
      match utf8Tail lead.following 1 lead.bits lead.low lead.high rest with
      | .error (length, reason) => .error ⟨start, length, b, reason⟩
      | .ok (code, after) =>
        match decodeUtf8From fuel (start + lead.following + 1) after with
        | .error fault => .error fault
        | .ok chars => .ok (Char.ofNat code :: chars)

/-- The text of a sequence of bytes, or its first fault. -/
def decodeUtf8 (bytes : List Nat) : Except Utf8Fault (List Char) :=
  decodeUtf8From bytes.length 0 bytes

def Utf8Fault.text (f : Utf8Fault) : String :=
  "'utf-8' codec can't decode " ++
    (if f.length = 1 then
      "byte 0x" ++ (if f.byte < 16 then "0" else "") ++ String.ofList (Nat.toDigits 16 f.byte) ++
        " in position " ++ toString f.start
    else
      "bytes in position " ++ toString f.start ++ "-" ++ toString (f.start + f.length - 1)) ++
    ": " ++ f.reason.text

end Treewalk.Text
