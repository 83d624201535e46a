import Signpost.Binary64

/-!
# Integers as binary64 numbers

An integer of at most 64 bits is far from the ends of the format: it is rounded to a finite number,
which is zero only if the integer is, and has the sign of the integer.  So a negative integer and a
positive one are never rounded to numbers of the same value.

## Main results

* `Binary64.nearestMagnitude_bounds`: where the magnitude of a rounded number lies.
* `Binary64.sign_ofInt`: a rounded integer keeps its sign.
* `Binary64.sameValue_ofInt_of_neg_of_pos`: integers of different signs stay apart.
-/

namespace Signpost.Binary64

/-! ## Magnitudes -/

theorem roundHalfEven_le (num den : Nat) : roundHalfEven num den ≤ num / den + 1 := by
  unfold roundHalfEven
  dsimp only
  have hparity := Nat.mod_lt (num / den) (Nat.zero_lt_succ 1)
  split
  · omega
  · split <;> omega

/-- At its scale a number fits into 53 bits. -/
theorem div_scaleOf_lt (num : Nat) : num / (1 <<< scaleOf num 1) < 2 * binade := by
  have hscale : num.log2 + 1 ≤ 53 + scaleOf num 1 := by
    rw [scaleOf, Nat.div_one]
    omega
  rw [Nat.one_shiftLeft]
  apply (Nat.div_lt_iff_lt_mul (Nat.two_pow_pos _)).mpr
  calc num < 2 ^ (num.log2 + 1) := Nat.lt_log2_self
    _ ≤ 2 ^ (53 + scaleOf num 1) := Nat.pow_le_pow_right (Nat.zero_lt_succ 1) hscale
    _ = 2 * binade * 2 ^ scaleOf num 1 := Nat.pow_add 2 53 _

/-- How long a number of at most 64 bits is, with zeros put behind it. -/
theorem log2_shiftLeft_bounds {n : Nat} (hpos : 0 < n) (hfits : n ≤ 0x10000000000000000) (k : Nat) :
    k ≤ (n <<< k).log2 ∧ (n <<< k).log2 < 65 + k := by
  have hne : n * 2 ^ k ≠ 0 := Nat.mul_ne_zero (Nat.ne_of_gt hpos) (Nat.ne_of_gt (Nat.two_pow_pos k))
  rw [Nat.shiftLeft_eq]
  constructor
  · apply (Nat.le_log2 hne).mpr
    exact Nat.le_mul_of_pos_left _ hpos
  · apply (Nat.log2_lt hne).mpr
    calc n * 2 ^ k ≤ 2 ^ 64 * 2 ^ k := Nat.mul_le_mul_right _ hfits
      _ < 2 ^ 65 * 2 ^ k := Nat.mul_lt_mul_of_pos_right (by decide) (Nat.two_pow_pos k)
      _ = 2 ^ (65 + k) := (Nat.pow_add 2 65 k).symm

/-- The magnitude of a rounded number of at most 64 bits is finite and not zero. -/
theorem nearestMagnitude_bounds {n : Nat} (hpos : 0 < n) (hfits : n ≤ 0x10000000000000000) :
    0 < nearestMagnitude (n <<< 1074) 1 ∧ nearestMagnitude (n <<< 1074) 1 < 2047 * binade := by
  obtain ⟨hlow, hhigh⟩ := log2_shiftLeft_bounds hpos hfits 1074
  have hrounded := roundHalfEven_le (n <<< 1074) (1 <<< scaleOf (n <<< 1074) 1)
  have hfraction := div_scaleOf_lt (n <<< 1074)
  have hscale : scaleOf (n <<< 1074) 1 = (n <<< 1074).log2 - 52 := by rw [scaleOf, Nat.div_one]
  -- the exponent alone keeps the magnitude above zero and leaves room for the significand
  rw [nearestMagnitude]
  generalize scaleOf (n <<< 1074) 1 = scale at *
  unfold binade at *
  omega

/-! ## Signs -/

/-- An integer of at most 64 bits that is not zero keeps its sign. -/
theorem sign_ofInt {i : Int} (hne : i ≠ 0) (hfits : i.natAbs ≤ 0x10000000000000000) :
    (ofInt i).negative = decide (i < 0) ∧ (ofInt i).magnitude ≠ 0 := by
  obtain ⟨hpos, hfinite⟩ := nearestMagnitude_bounds (Int.natAbs_pos.mpr hne) hfits
  rw [ofInt, ofRatio?, dif_pos hfinite]
  exact ⟨rfl, Nat.ne_of_gt hpos⟩

/-- **Integers of different signs stay apart** when they are rounded. -/
theorem sameValue_ofInt_of_neg_of_pos {i j : Int} (hi : i < 0) (hj : 0 < j)
    (hfits : i.natAbs ≤ 0x10000000000000000) (hfits' : j.natAbs ≤ 0x10000000000000000) :
    (ofInt i).sameValue (ofInt j) = false := by
  obtain ⟨hnegative, hmagnitude⟩ := sign_ofInt (Int.ne_of_lt hi) hfits
  obtain ⟨hpositive, -⟩ := sign_ofInt (Int.ne_of_gt hj) hfits'
  have hsigns : (ofInt i).negative ≠ (ofInt j).negative := by
    rw [hnegative, hpositive, decide_eq_true hi, decide_eq_false (Int.not_lt.mpr (Int.le_of_lt hj))]
    exact Bool.noConfusion
  rw [sameValue, beq_false_of_ne hsigns, beq_false_of_ne hmagnitude]
  exact Bool.and_false _

end Signpost.Binary64
