import Mathlib.Data.List.Nodup
import Signpost.Digest

/-!
# Digests as texts

The text of a digest tells the digest, for no two numbers below 64 have one letter.  So two texts
have the same digest in writing only if their bytes are the same, or collide.

## Main definitions

* `Digest.Collide`: different messages with one digest.

## Main results

* `Digest.base64Url_injective`
* `Digest.ofText_eq_iff`: when the digests of two texts are the same.
-/

namespace Signpost.Digest

/-- Two different messages have one digest. -/
def Collide (m m' : List UInt8) : Prop := m ≠ m' ∧ sha256 m = sha256 m'

/-- The bytes of a text. -/
def bytes (text : String) : List UInt8 := text.toUTF8.data.toList

theorem nodup_letters : ((List.range 64).map letter).Nodup := by decide

theorem letter_inj {m n : Nat} (h : letter m = letter n) (hm : m < 64) (hn : n < 64) : m = n :=
  List.inj_on_of_nodup_map nodup_letters (List.mem_range.mpr hm) (List.mem_range.mpr hn) h

/-- A number of 24 bits is told by its four letters. -/
theorem letters_inj {n n' : Nat} (hn : n < 16777216) (hn' : n' < 16777216)
    (h1 : letter (n / 262144) = letter (n' / 262144))
    (h2 : letter (n / 4096 % 64) = letter (n' / 4096 % 64))
    (h3 : letter (n / 64 % 64) = letter (n' / 64 % 64))
    (h4 : letter (n % 64) = letter (n' % 64)) : n = n' := by
  have e1 := letter_inj h1 (by omega) (by omega)
  have e2 := letter_inj h2 (by omega) (by omega)
  have e3 := letter_inj h3 (by omega) (by omega)
  have e4 := letter_inj h4 (by omega) (by omega)
  omega

theorem threeBytes_lt (a b c : UInt8) : a.toNat * 65536 + b.toNat * 256 + c.toNat < 16777216 := by
  have ha := a.toNat_lt
  have hb := b.toNat_lt
  have hc := c.toNat_lt
  omega

/-- Three bytes are told by the number that they make. -/
theorem threeBytes_inj {a b c a' b' c' : UInt8}
    (h : a.toNat * 65536 + b.toNat * 256 + c.toNat =
      a'.toNat * 65536 + b'.toNat * 256 + c'.toNat) : a = a' ∧ b = b' ∧ c = c' := by
  have hb := b.toNat_lt
  have hc := c.toNat_lt
  have hb' := b'.toNat_lt
  have hc' := c'.toNat_lt
  simp only [← UInt8.toNat_inj]
  omega

/-- Bytes are told by their text. -/
theorem base64Url_injective : Function.Injective base64Url := by
  intro xs ys h
  induction xs using base64Url.induct generalizing ys with
  | case1 a b c rest ih =>
    rcases ys with _ | ⟨a', _ | ⟨b', _ | ⟨c', rest'⟩⟩⟩
    · simp [base64Url] at h
    · simp [base64Url] at h
    · simp [base64Url] at h
    · simp only [base64Url, List.cons.injEq] at h
      obtain ⟨h1, h2, h3, h4, hrest⟩ := h
      have hnumber := letters_inj (threeBytes_lt a b c) (threeBytes_lt a' b' c') h1 h2 h3 h4
      obtain ⟨rfl, rfl, rfl⟩ := threeBytes_inj hnumber
      rw [ih hrest]
  -- what is left at the end is as if it were filled up with zeros
  | case2 a b =>
    rcases ys with _ | ⟨a', _ | ⟨b', _ | ⟨c', rest'⟩⟩⟩
    · simp [base64Url] at h
    · simp [base64Url] at h
    · simp only [base64Url, List.cons.injEq, and_true] at h
      obtain ⟨h1, h2, h3⟩ := h
      have hlt : ∀ x y : UInt8, x.toNat * 65536 + y.toNat * 256 < 16777216 := fun x y => by
        simpa using threeBytes_lt x y 0
      have hnumber := letters_inj (hlt a b) (hlt a' b') h1 h2 h3 (congrArg letter (by omega))
      obtain ⟨rfl, rfl, -⟩ := @threeBytes_inj a b 0 a' b' 0 (congrArg (· + 0) hnumber)
      rfl
    · simp [base64Url] at h
  | case3 a =>
    rcases ys with _ | ⟨a', _ | ⟨b', _ | ⟨c', rest'⟩⟩⟩
    · simp [base64Url] at h
    · simp only [base64Url, List.cons.injEq, and_true] at h
      obtain ⟨h1, h2⟩ := h
      have ha := a.toNat_lt
      have ha' := a'.toNat_lt
      have e1 := letter_inj h1 (by omega) (by omega)
      have e2 := letter_inj h2 (by omega) (by omega)
      rw [UInt8.toNat_inj.mp (show a.toNat = a'.toNat by omega)]
    · simp [base64Url] at h
    · simp [base64Url] at h
  | case4 =>
    rcases ys with _ | ⟨a', _ | ⟨b', _ | ⟨c', rest'⟩⟩⟩
    · rfl
    · simp [base64Url] at h
    · simp [base64Url] at h
    · simp [base64Url] at h

theorem bytes_injective : Function.Injective bytes := by
  intro s t h
  have hbytes : s.toUTF8 = t.toUTF8 := ByteArray.ext (Array.toList_inj.mp h)
  exact String.toByteArray_inj.mp hbytes

/-- **When the digests of two texts are the same**: if the texts are, or their bytes collide. -/
theorem ofText_eq_iff (s t : String) :
    ofText s = ofText t ↔ s = t ∨ Collide (bytes s) (bytes t) := by
  have hdigest : ofText s = ofText t ↔ sha256 (bytes s) = sha256 (bytes t) := by
    rw [ofText, ofText, String.ofList_inj, base64Url_injective.eq_iff]
    rfl
  rw [hdigest, Collide, bytes_injective.ne_iff]
  by_cases h : s = t
  · simp [h]
  · simp [h]

end Signpost.Digest
