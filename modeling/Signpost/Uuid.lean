/-!
# Universally unique identifiers

An identifier is a number of 128 bits.  It is written as 32 lower-case hexadecimal digits in groups
of eight, four, four, four and twelve; it is read in that form, without the hyphens, between
braces, or after `urn:uuid:`, with digits of either case.

## Main definitions

* `Uuid`, ordered by value
* `Uuid.toString`, `Uuid.plain`, `Uuid.parse?`
-/

namespace Signpost

/-- An identifier of 128 bits. -/
structure Uuid where
  bits : BitVec 128
deriving DecidableEq

namespace Uuid

instance : Inhabited Uuid := ⟨⟨0⟩⟩

/-- The identifier of the low 128 bits of a number. -/
def ofNat (n : Nat) : Uuid := ⟨BitVec.ofNat 128 n⟩

/-- Identifiers are ordered by value, which is the order of their texts. -/
def le (a b : Uuid) : Bool := decide (a.bits.toNat ≤ b.bits.toNat)

/-- A hexadecimal digit in lower case. -/
def digit (n : Nat) : Char :=
  if n < 10 then Char.ofNat ('0'.toNat + n) else Char.ofNat ('a'.toNat + (n - 10))

/-- The value of a hexadecimal digit of either case. -/
def digitValue? (c : Char) : Option Nat :=
  if '0' ≤ c ∧ c ≤ '9' then some (c.toNat - '0'.toNat)
  else if 'a' ≤ c ∧ c ≤ 'f' then some (c.toNat - 'a'.toNat + 10)
  else if 'A' ≤ c ∧ c ≤ 'F' then some (c.toNat - 'A'.toNat + 10)
  else none

/-- The last `count` hexadecimal digits of a number. -/
def digits : Nat → Nat → List Char
  | 0, _ => []
  | count + 1, n => digits count (n / 16) ++ [digit (n % 16)]

@[simp] theorem length_digits (count n : Nat) : (digits count n).length = count := by
  induction count generalizing n with
  | zero => rfl
  | succ count ih => simp [digits, ih]

/-- The hyphenated text, as characters. -/
def render (u : Uuid) : List Char :=
  let ds := digits 32 u.bits.toNat
  ds.take 8 ++ '-' :: (ds.drop 8).take 4 ++ '-' :: (ds.drop 12).take 4 ++
    '-' :: (ds.drop 16).take 4 ++ '-' :: ds.drop 20

/-- Every identifier is written in 36 characters. -/
theorem length_render (u : Uuid) : u.render.length = 36 := by simp [render]

/-- The hyphenated text. -/
def toString (u : Uuid) : String := String.ofList u.render

instance : ToString Uuid := ⟨Uuid.toString⟩

/-- The text without hyphens. -/
def plain (u : Uuid) : String := String.ofList (digits 32 u.bits.toNat)

/-- The number that hexadecimal digits give. -/
def digitsValue? (ds : List Char) : Option Nat :=
  ds.foldlM (fun n c => (n * 16 + ·) <$> digitValue? c) 0

/-- The identifier of 32 hexadecimal digits. -/
def ofDigits? (ds : List Char) : Option Uuid :=
  if ds.length = 32 then (digitsValue? ds).map ofNat else none

/-- The identifier of digits in five hyphenated groups. -/
def ofHyphenated? (cs : List Char) : Option Uuid :=
  if cs.length = 36 ∧ cs[8]? = some '-' ∧ cs[13]? = some '-' ∧ cs[18]? = some '-' ∧
      cs[23]? = some '-' then
    ofDigits? (cs.take 8 ++ (cs.drop 9).take 4 ++ (cs.drop 14).take 4 ++ (cs.drop 19).take 4 ++
      cs.drop 24)
  else none

/-- What stands before the identifier in its form as a name. -/
def urnMark : List Char := ['u', 'r', 'n', ':', 'u', 'u', 'i', 'd', ':']

/-- Reads an identifier, as characters. -/
def read? (cs : List Char) : Option Uuid :=
  if cs.length = 32 then ofDigits? cs
  else if cs.length = 36 then ofHyphenated? cs
  else if cs.length = 38 ∧ cs.head? = some '{' ∧ cs.getLast? = some '}' then
    ofHyphenated? ((cs.drop 1).take 36)
  else if cs.take 9 = urnMark then ofHyphenated? (cs.drop 9)
  else none

/-- Reads an identifier. -/
def parse? (s : String) : Option Uuid := read? s.toList

end Uuid

end Signpost
