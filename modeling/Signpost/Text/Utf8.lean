/-!
# Reading UTF-8

Bytes are read as characters one by one.  Where a byte cannot go on what stands before it, one
unreadable place is marked for all bytes that might have become a character, and the byte is looked
at again as the first one of a character.

## Main definitions

* `Utf8.read`: characters and unreadable places.
* `Utf8.decode?`: the text of bytes without unreadable places.
* `Utf8.decodeLossy`: the text with a replacement character at every unreadable place.
-/

namespace Signpost.Utf8

/-- A character of which some bytes are still due. -/
structure Partial where
  /-- The value of the bytes so far. -/
  value : Nat
  /-- The least and the greatest value of every byte that is due. -/
  due : List (Nat × Nat)

/-- What any later byte of a character may be. -/
def anyTail : Nat × Nat := (0x80, 0xbf)

/-- The character that a byte begins, unless none does. -/
def begin? (b : Nat) : Option Partial :=
  if b < 0x80 then some ⟨b, []⟩
  else if 0xc2 ≤ b ∧ b ≤ 0xdf then some ⟨b - 0xc0, [anyTail]⟩
  else if b = 0xe0 then some ⟨0, [(0xa0, 0xbf), anyTail]⟩
  else if b = 0xed then some ⟨0xd, [(0x80, 0x9f), anyTail]⟩
  else if 0xe1 ≤ b ∧ b ≤ 0xef then some ⟨b - 0xe0, [anyTail, anyTail]⟩
  else if b = 0xf0 then some ⟨0, [(0x90, 0xbf), anyTail, anyTail]⟩
  else if 0xf1 ≤ b ∧ b ≤ 0xf3 then some ⟨b - 0xf0, [anyTail, anyTail, anyTail]⟩
  else if b = 0xf4 then some ⟨4, [(0x80, 0x8f), anyTail, anyTail]⟩
  else none

/-- What is read when a byte may begin a character: what stands there already, and the character
that has begun. -/
def start (b : Nat) : List (Option Char) × Option Partial :=
  match begin? b with
  | none => ([none], none)
  | some ⟨value, []⟩ => ([some (Char.ofNat value)], none)
  | some p => ([], some p)

/-- Reads one byte. -/
def step (pending : Option Partial) (b : Nat) : List (Option Char) × Option Partial :=
  match pending with
  | none => start b
  | some ⟨_, []⟩ => start b
  | some ⟨value, (least, greatest) :: due⟩ =>
    if least ≤ b ∧ b ≤ greatest then
      let value := value * 64 + (b - 0x80)
      match due with
      | [] => ([some (Char.ofNat value)], none)
      | due => ([], some ⟨value, due⟩)
    else
      let (places, pending) := start b
      (none :: places, pending)

/-- The characters of bytes, and none at every unreadable place. -/
def readFrom (pending : Option Partial) : List UInt8 → List (Option Char)
  | [] => match pending with
    | some _ => [none]
    | none => []
  | b :: rest =>
    let (places, pending) := step pending b.toNat
    places ++ readFrom pending rest

/-- The characters of bytes, and none at every unreadable place. -/
def read (bytes : List UInt8) : List (Option Char) := readFrom none bytes

/-- The text of bytes without unreadable places. -/
def decode? (bytes : List UInt8) : Option String := ((read bytes).mapM id).map String.ofList

/-- The text of bytes with a replacement character at every unreadable place. -/
def decodeLossy (bytes : List UInt8) : String :=
  String.ofList ((read bytes).map fun c => c.getD '\ufffd')

/-- The bytes of a text. -/
def encode (text : List Char) : List UInt8 := text.flatMap String.utf8EncodeChar

end Signpost.Utf8
