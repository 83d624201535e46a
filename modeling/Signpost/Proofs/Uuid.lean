import Mathlib.Algebra.Group.Nat.Defs
import Signpost.Uuid

/-!
# The text of an identifier

An identifier is read back from its text.  The digits give the number again, and the hyphens are
where they are looked for.  So different identifiers have different texts, and without the hyphens
the texts are ordered as the identifiers are.

## Main results

* `Uuid.digitsValue?_digits`: the last hexadecimal digits of a number give what is left of it.
* `Uuid.digits_lt_digits`: digits are ordered like numbers.
* `Uuid.parse?_toString`, `Uuid.toString_injective`
-/

namespace Signpost.Uuid

theorem digitValue?_digit {n : Nat} (h : n < 16) : digitValue? (digit n) = some n := by
  have hall : ∀ n : Fin 16, digitValue? (digit n) = some n.val := by decide
  exact hall ⟨n, h⟩

theorem digitsValue?_concat (ds : List Char) (d : Char) :
    digitsValue? (ds ++ [d]) =
      (digitsValue? ds).bind fun n => (digitValue? d).map (n * 16 + ·) := by
  rw [digitsValue?, List.foldlM_append]
  show (digitsValue? ds).bind _ = _
  congr 1
  funext n
  rw [List.foldlM_cons]
  cases digitValue? d <;> rfl

/-- The last hexadecimal digits of a number give the number up to multiples of their range. -/
theorem digitsValue?_digits (count n : Nat) :
    digitsValue? (digits count n) = some (n % 16 ^ count) := by
  induction count generalizing n with
  | zero => simp [digits, digitsValue?, Nat.mod_one]
  | succ count ih =>
    have hlast : digitValue? (digit (n % 16)) = some (n % 16) :=
      digitValue?_digit (Nat.mod_lt n (by decide))
    have hsum : n / 16 % 16 ^ count * 16 + n % 16 = n % 16 ^ (count + 1) := by
      rw [Nat.pow_succ', Nat.mod_mul]
      omega
    rw [digits, digitsValue?_concat, ih, hlast]
    exact congrArg some hsum

theorem ofDigits?_digits (u : Uuid) : ofDigits? (digits 32 u.bits.toNat) = some u := by
  have hrange : u.bits.toNat % 16 ^ 32 = u.bits.toNat := Nat.mod_eq_of_lt u.bits.isLt
  rw [ofDigits?, if_pos (length_digits 32 _), digitsValue?_digits, hrange]
  simp [ofNat]

theorem digits_injective {u v : Uuid} (h : digits 32 u.bits.toNat = digits 32 v.bits.toNat) :
    u = v := by
  have hread := congrArg ofDigits? h
  rw [ofDigits?_digits, ofDigits?_digits] at hread
  exact Option.some.inj hread

/-- Digits in hyphenated groups are read as the digits without hyphens. -/
theorem ofHyphenated?_groups {a b c d e : List Char} (ha : a.length = 8) (hb : b.length = 4)
    (hc : c.length = 4) (hd : d.length = 4) (he : e.length = 12) :
    ofHyphenated? (a ++ '-' :: b ++ '-' :: c ++ '-' :: d ++ '-' :: e) =
      ofDigits? (a ++ b ++ c ++ d ++ e) := by
  simp [ofHyphenated?, List.drop_append, List.drop_eq_nil_of_le, ha, hb, hc, hd, he]

theorem ofHyphenated?_render (u : Uuid) : ofHyphenated? u.render = some u := by
  have hds := length_digits 32 u.bits.toNat
  rw [← ofDigits?_digits u, render]
  generalize digits 32 u.bits.toNat = ds at hds
  rw [ofHyphenated?_groups (by simp [hds]) (by simp [hds]) (by simp [hds]) (by simp [hds])
    (by simp [hds])]
  have hgroup : ∀ k m, (ds.drop k).take m ++ ds.drop (k + m) = ds.drop k := fun k m => by
    rw [← List.drop_drop, List.take_append_drop]
  rw [List.append_assoc _ _ (ds.drop 20), hgroup 16 4, List.append_assoc, hgroup 12 4,
    List.append_assoc, hgroup 8 4, List.take_append_drop]

/-- An identifier is read back from its text. -/
theorem parse?_toString (u : Uuid) : parse? u.toString = some u := by
  rw [parse?, toString, String.toList_ofList, read?, if_neg (by simp [length_render]),
    if_pos (length_render u), ofHyphenated?_render]

theorem toString_injective : Function.Injective toString := by
  intro u v h
  have hread := congrArg parse? h
  rw [parse?_toString, parse?_toString] at hread
  exact Option.some.inj hread

/-! ## Order -/

theorem digit_lt_digit {m n : Nat} (hn : n < 16) (h : m < n) : digit m < digit n := by
  have hall : ∀ n : Fin 16, ∀ m : Fin n, digit m < digit n := by decide
  exact hall ⟨n, hn⟩ ⟨m, h⟩

/-- The first digit, and the others. -/
theorem digits_succ (count n : Nat) :
    digits (count + 1) n = digit (n / 16 ^ count % 16) :: digits count n := by
  induction count generalizing n with
  | zero => simp [digits]
  | succ count ih =>
    rw [digits, ih, digits, Nat.div_div_eq_div_mul, Nat.pow_succ', List.cons_append]

/-- Digits are ordered like the numbers that they are the last ones of. -/
theorem digits_lt_digits {count m n : Nat} (h : m % 16 ^ count < n % 16 ^ count) :
    digits count m < digits count n := by
  induction count with
  | zero => simp [Nat.mod_one] at h
  | succ count ih =>
    have hsplit : ∀ n, n % 16 ^ (count + 1) =
        n % 16 ^ count + 16 ^ count * (n / 16 ^ count % 16) := fun n => by
      rw [Nat.pow_succ, Nat.mod_mul]
    have hrest : ∀ n, n % 16 ^ count < 16 ^ count := fun n =>
      Nat.mod_lt n (Nat.pow_pos (by decide))
    rw [hsplit, hsplit] at h
    rw [digits_succ, digits_succ, List.cons_lt_cons_iff]
    -- the first digit decides, and if it is the same the others do
    rcases Nat.lt_trichotomy (m / 16 ^ count % 16) (n / 16 ^ count % 16) with hlt | heq | hgt
    · exact .inl (digit_lt_digit (Nat.mod_lt _ (by decide)) hlt)
    · rw [heq] at h
      exact .inr ⟨by rw [heq], ih (by omega)⟩
    · have hfirst := Nat.mul_le_mul_left (16 ^ count) (Nat.succ_le_of_lt hgt)
      have := hrest n
      rw [Nat.mul_succ] at hfirst
      omega

end Signpost.Uuid
