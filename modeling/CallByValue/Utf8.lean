import CallByValue.Text

/-!
# UTF-8

Decoding stops at the first sequence that is no character's, and says where it
lies, how long its valid beginning is and what is wrong with it.
-/

namespace CallByValue.Utf8

/-- What is wrong with a sequence of bytes. -/
inductive Flaw where
  | startByte
  | continuationByte
  | endOfData
deriving DecidableEq

/-- A sequence of `length` bytes at a position that is not a character's. -/
structure Fault where
  flaw : Flaw
  first : UInt8
  position : Nat
  length : Nat
deriving DecidableEq

/-- The words for a flaw. -/
def Flaw.text : Flaw → Text
  | startByte => lit "invalid start byte"
  | continuationByte => lit "invalid continuation byte"
  | endOfData => lit "unexpected end of data"

/-- The words for a fault. -/
def Fault.text (f : Fault) : Text :=
  let place :=
    if f.length = 1 then
      lit "byte 0x" ++ Text.hexadecimal 2 f.first.toNat ++ lit " in position " ++ Text.ofNat f.position
    else
      lit "bytes in position " ++ Text.ofNat f.position ++ lit "-" ++ Text.ofNat (f.position + f.length - 1)
  lit "'utf-8' codec can't decode " ++ place ++ lit ": " ++ f.flaw.text

/-- What a first byte announces: the bits it contributes, how many bytes have to follow, and the
    range of the next one. -/
structure Lead where
  bits : Nat
  owed : Nat
  low : Nat
  high : Nat

/-- What a byte at the beginning of a character announces; none where no character begins with it. -/
def lead? (byte : UInt8) : Option Lead :=
  let b := byte.toNat
  if b < 0x80 then some ⟨b, 0, 0x80, 0xBF⟩
  else if b < 0xC2 then none
  else if b < 0xE0 then some ⟨b - 0xC0, 1, 0x80, 0xBF⟩
  else if b = 0xE0 then some ⟨0, 2, 0xA0, 0xBF⟩
  else if b = 0xED then some ⟨0xD, 2, 0x80, 0x9F⟩
  else if b < 0xF0 then some ⟨b - 0xE0, 2, 0x80, 0xBF⟩
  else if b = 0xF0 then some ⟨0, 3, 0x90, 0xBF⟩
  else if b < 0xF4 then some ⟨b - 0xF0, 3, 0x80, 0xBF⟩
  else if b = 0xF4 then some ⟨4, 3, 0x80, 0x8F⟩
  else none

/-- A character that is not complete: its first byte and where that stood, how many bytes have been
    taken, and what is still announced. -/
structure Partial where
  first : UInt8
  position : Nat
  taken : Nat
  lead : Lead

/-- Decodes bytes from a position on, after the code points already decoded, latest first, and
    perhaps the beginning of one more. -/
def decodeFrom (done : Text) (pending : Option Partial) (position : Nat) : List UInt8 → Except Fault Text
  | [] =>
    match pending with
    | none => .ok done.reverse
    | some p => .error ⟨.endOfData, p.first, p.position, p.taken⟩
  | byte :: bytes =>
    match pending with
    | none =>
      match lead? byte with
      | none => .error ⟨.startByte, byte, position, 1⟩
      | some lead =>
        if lead.owed = 0 then decodeFrom (CodePoint.ofNat lead.bits :: done) none (position + 1) bytes
        else decodeFrom done (some ⟨byte, position, 1, lead⟩) (position + 1) bytes
    | some p =>
      let b := byte.toNat
      if p.lead.low ≤ b ∧ b ≤ p.lead.high then
        let bits := p.lead.bits * 64 + b % 64
        if p.lead.owed = 1 then decodeFrom (CodePoint.ofNat bits :: done) none (position + 1) bytes
        else
          decodeFrom done (some ⟨p.first, p.position, p.taken + 1, ⟨bits, p.lead.owed - 1, 0x80, 0xBF⟩⟩)
            (position + 1) bytes
      else .error ⟨.continuationByte, p.first, p.position, p.taken⟩

/-- The text that bytes encode. -/
def decode (bytes : List UInt8) : Except Fault Text := decodeFrom [] none 0 bytes

/-- The bytes of a code point. A surrogate is written as three bytes, which no decoder takes. -/
def encodePoint (c : CodePoint) : List UInt8 :=
  let n := c.val
  let tail (shift : Nat) : UInt8 := UInt8.ofNat (0x80 + (n >>> shift) % 64)
  if n < 0x80 then [UInt8.ofNat n]
  else if n < 0x800 then [UInt8.ofNat (0xC0 + n >>> 6), tail 0]
  else if n < 0x10000 then [UInt8.ofNat (0xE0 + n >>> 12), tail 6, tail 0]
  else [UInt8.ofNat (0xF0 + n >>> 18), tail 12, tail 6, tail 0]

/-- The bytes of a text. -/
def encode (t : Text) : List UInt8 := t.flatMap encodePoint

/-! ## Names of files

The system's names are bytes. Where a name is not UTF-8, a byte from 0x80 on that belongs to no
character is carried by the surrogate U+DC00 plus the byte.
-/

/-- Does a code point carry a single byte? -/
def CarriesByte (c : CodePoint) : Prop := 0xDC80 ≤ c.val ∧ c.val ≤ 0xDCFF

instance (c : CodePoint) : Decidable (CarriesByte c) := inferInstanceAs (Decidable (_ ∧ _))

/-- The bytes of a name. -/
def encodeName (t : Text) : List UInt8 :=
  t.flatMap fun c => if CarriesByte c then [UInt8.ofNat (c.val - 0xDC00)] else encodePoint c

/-- Surrogates at a position in a text that carry no bytes; what stands behind the first of them up
    to the next character goes with it. -/
structure NameFault where
  first : CodePoint
  position : Nat
  length : Nat
deriving DecidableEq

/-- The first surrogate in a name that carries no byte, if there is one. -/
def nameFault? (t : Text) : Option NameFault :=
  let sound (c : CodePoint) : Bool := !decide c.IsSurrogate || decide (CarriesByte c)
  match t.dropWhile sound with
  | [] => none
  | c :: rest =>
    some ⟨c, (t.takeWhile sound).length, (rest.takeWhile fun d => decide d.IsSurrogate).length + 1⟩

/-- The words for a fault in a name. -/
def NameFault.text (f : NameFault) : Text :=
  let place :=
    if f.length = 1 then
      lit "character '\\u" ++ Text.hexadecimal 4 f.first.val ++ lit "' in position " ++ Text.ofNat f.position
    else
      lit "characters in position " ++ Text.ofNat f.position ++ lit "-" ++
        Text.ofNat (f.position + f.length - 1)
  lit "'utf-8' codec can't encode " ++ place ++ lit ": surrogates not allowed"

end CallByValue.Utf8
