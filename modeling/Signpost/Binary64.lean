/-!
# Finite binary64 numbers

A finite number of the binary64 format is a sign and a magnitude, the 63 bits below the sign read
as a natural number.  Every finite magnitude is a whole number of units of `2 ^ -1074`, so values,
comparisons and roundings are exact arithmetic on natural numbers.

## Main definitions

* `Binary64.units`: the magnitude of a number, counted in units of `2 ^ -1074`.
* `Binary64.ofRatio?`: the number nearest to a ratio, a tie going to the even significand; `none`
  beyond the largest finite number.
* `Binary64.ofDecimal?`: the number a decimal significand and exponent are read as.
-/

namespace Signpost

/-- The number of magnitudes with one exponent, which is also the leading bit of the significand of
a normal number: the 52nd power of two. -/
abbrev Binary64.binade : Nat := 0x10000000000000

/-- A finite binary64 number: its sign and the 63 bits below the sign. -/
structure Binary64 where
  negative : Bool
  magnitude : Nat
  finite : magnitude < 2047 * Binary64.binade
deriving DecidableEq

namespace Binary64

/-! ## Values -/

/-- The zero of the given sign. -/
def zero (negative : Bool) : Binary64 := ⟨negative, 0, by decide⟩

instance : Inhabited Binary64 := ⟨zero false⟩

/-- The significand, with its leading bit written out for normal numbers. -/
def significand (x : Binary64) : Nat :=
  if x.magnitude < binade then x.magnitude else x.magnitude % binade + binade

/-- The power of two that scales the significand, counted from the least one. -/
def scale (x : Binary64) : Nat := x.magnitude / binade - 1

/-- The absolute value in units of `2 ^ -1074`. -/
def units (x : Binary64) : Nat := x.significand <<< x.scale

/-- Equality of values: the two zeros are equal, and otherwise sign and magnitude decide. -/
def sameValue (x y : Binary64) : Bool :=
  x.magnitude == y.magnitude && (x.negative == y.negative || x.magnitude == 0)

@[simp] theorem sameValue_self (x : Binary64) : x.sameValue x = true := by simp [sameValue]

theorem sameValue_comm (x y : Binary64) : x.sameValue y = y.sameValue x := by
  rw [Bool.eq_iff_iff]
  simp only [sameValue, Bool.and_eq_true, Bool.or_eq_true, beq_iff_eq]
  constructor <;> rintro ⟨h, h'⟩ <;> exact ⟨h.symm, h'.imp Eq.symm fun z => by omega⟩

/-! ## Rounding -/

/-- The natural number nearest to `num / den`; a half goes to the even neighbour. -/
def roundHalfEven (num den : Nat) : Nat :=
  let quotient := num / den
  let rest := num % den
  if 2 * rest < den then quotient
  else if den < 2 * rest then quotient + 1
  else quotient + quotient % 2

/-- The least scale at which a ratio, in units of `2 ^ -1074`, fits into 53 bits. -/
def scaleOf (num den : Nat) : Nat := (num / den).log2 - 52

/-- The magnitude nearest to `num / den` units of `2 ^ -1074`.  A significand that rounds up to
`2 ^ 53` carries into the exponent by the same addition. -/
def nearestMagnitude (num den : Nat) : Nat :=
  let scale := scaleOf num den
  -- below the normal numbers the scale is zero, so that they need no case of their own
  scale * binade + roundHalfEven num (den <<< scale)

/-- The number nearest to `num / den` in value, or `none` beyond the finite numbers. -/
def ofRatio? (negative : Bool) (num den : Nat) : Option Binary64 :=
  let magnitude := nearestMagnitude (num <<< 1074) den
  if finite : magnitude < 2047 * binade then some ⟨negative, magnitude, finite⟩ else none

/-- The number nearest to an integer of at most 64 bits. -/
def ofInt (i : Int) : Binary64 :=
  (ofRatio? (decide (i < 0)) i.natAbs 1).getD (zero false)

/-- The rounded product, or `none` beyond the finite numbers. -/
def mul? (x y : Binary64) : Option Binary64 :=
  ofRatio? (x.negative ^^ y.negative) (x.units * y.units) (1 <<< 2148)

/-- The rounded quotient by a number that is not below one, which is finite. -/
def shrinkBy (x y : Binary64) : Binary64 :=
  (ofRatio? (x.negative ^^ y.negative) x.units y.units).getD (zero x.negative)

/-! ## Decimals

A decimal is read as its significand, rounded, and then scaled by a power of ten, rounded again.
Powers of ten up to `10 ^ 308` are finite numbers; beyond them the scaling is done in parts. -/

/-- The number nearest to a power of ten up to `10 ^ 308`. -/
def tenPower (k : Nat) : Binary64 := (ofRatio? false (Nat.pow 10 k) 1).getD (zero false)

/-- The number divided by `10 ^ k`, at most `10 ^ 308` at a time, until it is zero. -/
def scaleDown (x : Binary64) (k : Nat) : Binary64 :=
  if k ≤ 308 then x.shrinkBy (tenPower k)
  else if x.magnitude = 0 then x
  else (x.shrinkBy (tenPower 308)).scaleDown (k - 308)
termination_by k
decreasing_by omega

/-- The number multiplied by `10 ^ k`, or `none` beyond the finite numbers. -/
def scaleUp? (x : Binary64) (k : Nat) : Option Binary64 :=
  if k ≤ 308 then x.mul? (tenPower k)
  else if x.magnitude = 0 then some x
  else none

/-- The number that `significand * 10 ^ exponent` with the given sign is read as, or `none` beyond
the finite numbers. -/
def ofDecimal? (negative : Bool) (significand : Nat) (exponent : Int) : Option Binary64 :=
  let start := ofInt significand
  let scaled :=
    if exponent < 0 then some (start.scaleDown exponent.natAbs)
    else start.scaleUp? exponent.toNat
  scaled.map fun x => { x with negative }

end Binary64

end Signpost
