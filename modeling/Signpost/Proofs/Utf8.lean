import Signpost.Json.Bytes

/-!
# What is written in UTF-8 is read back

The bytes of a character are its lead, which says how many tails follow and what the first of them
may be, and the tails.  Read one by one they give the character and leave nothing pending, so a text
is read from its bytes without unreadable places, whatever reads it.

## Main results

* `Utf8.readFrom_encodeChar`: the bytes of a character are read as the character.
* `Utf8.read_encode`: the bytes of a text are read as the text.
* `Json.decodeBytes_encode`: JSON in the bytes of a text is decoded as the text is.
-/

namespace Signpost.Utf8

variable {value lead n least greatest : Nat} {due : List (Nat × Nat)} {rest : List UInt8}

/-! ## Leads and tails -/

theorem toNat_ofNat_byte (h : n < 256) : (UInt8.ofNat n).toNat = n := by
  rw [UInt8.toNat_ofNat', Nat.mod_eq_of_lt h]

/-- A byte that begins a character which more bytes are due of. -/
theorem readFrom_lead {p : Nat × Nat} (hbyte : lead < 256)
    (hbegin : begin? lead = some ⟨value, p :: due⟩) :
    readFrom none (UInt8.ofNat lead :: rest) = readFrom (some ⟨value, p :: due⟩) rest := by
  simp only [readFrom, step, start, toNat_ofNat_byte hbyte, hbegin, List.nil_append]

/-- The last byte that is due. -/
theorem readFrom_last (hn : n < 64) :
    readFrom (some ⟨value, [anyTail]⟩) (UInt8.ofNat (n + 128) :: rest) =
      some (Char.ofNat (value * 64 + n)) :: readFrom none rest := by
  have htail : 0x80 ≤ n + 128 ∧ n + 128 ≤ 0xbf := by omega
  simp only [readFrom, step, anyTail, toNat_ofNat_byte (show n + 128 < 256 by omega), if_pos htail,
    Nat.add_sub_cancel, List.cons_append, List.nil_append]

/-- A byte after which more are due. -/
theorem readFrom_tail (p : Nat × Nat) (hn : n < 64)
    (htail : least ≤ n + 128 ∧ n + 128 ≤ greatest) :
    readFrom (some ⟨value, (least, greatest) :: p :: due⟩) (UInt8.ofNat (n + 128) :: rest) =
      readFrom (some ⟨value * 64 + n, p :: due⟩) rest := by
  simp only [readFrom, step, toNat_ofNat_byte (show n + 128 < 256 by omega), if_pos htail,
    Nat.add_sub_cancel, List.nil_append]

/-- The lead of two bytes. -/
theorem begin?_two (hleast : 2 ≤ n) (hn : n < 32) : begin? (n + 192) = some ⟨n, [anyTail]⟩ := by
  rw [begin?, if_neg (by omega), if_pos (by omega), Nat.add_sub_cancel]

/-- The lead of three bytes, and what the next one may be: no character is written with more bytes
than it takes, and none is half a surrogate pair. -/
theorem exists_begin?_three (hn : n < 16) : ∃ least greatest,
    begin? (n + 224) = some ⟨n, [(least, greatest), anyTail]⟩ ∧
      ∀ k < 64, (n = 0 → 32 ≤ k) → (n = 13 → k < 32) →
        least ≤ k + 128 ∧ k + 128 ≤ greatest := by
  have hbegin : begin? (n + 224) = if n = 0 then some ⟨0, [(0xa0, 0xbf), anyTail]⟩
      else if n = 13 then some ⟨0xd, [(0x80, 0x9f), anyTail]⟩
      else some ⟨n, [anyTail, anyTail]⟩ := by
    rw [begin?, if_neg (by omega), if_neg (by omega)]
    by_cases hzero : n = 0
    · rw [if_pos (by omega), if_pos hzero]
    · by_cases hthirteen : n = 13
      · rw [if_neg (by omega), if_pos (by omega), if_neg hzero, if_pos hthirteen]
      · rw [if_neg (by omega), if_neg (by omega), if_pos (by omega), if_neg hzero,
          if_neg hthirteen, Nat.add_sub_cancel]
  rw [hbegin]
  by_cases hzero : n = 0
  · exact ⟨_, _, by rw [if_pos hzero, hzero], fun k hk hlow _ => by have := hlow hzero; omega⟩
  · by_cases hthirteen : n = 13
    · exact ⟨_, _, by rw [if_neg hzero, if_pos hthirteen, hthirteen],
        fun k hk _ hhigh => by have := hhigh hthirteen; omega⟩
    · exact ⟨0x80, 0xbf, (if_neg hzero).trans (if_neg hthirteen), fun k hk _ _ => by omega⟩

/-- The lead of four bytes, and what the next one may be: no character is written with more bytes
than it takes, and none is beyond the last one. -/
theorem exists_begin?_four (hn : n ≤ 4) : ∃ least greatest,
    begin? (n + 240) = some ⟨n, [(least, greatest), anyTail, anyTail]⟩ ∧
      ∀ k < 64, (n = 0 → 16 ≤ k) → (n = 4 → k < 16) →
        least ≤ k + 128 ∧ k + 128 ≤ greatest := by
  rcases Nat.eq_zero_or_pos n with rfl | hpositive
  · exact ⟨0x90, 0xbf, rfl, fun k hk hlow _ => by have := hlow rfl; omega⟩
  · by_cases hfour : n = 4
    · subst hfour
      exact ⟨0x80, 0x8f, rfl, fun k hk _ hhigh => by have := hhigh rfl; omega⟩
    · refine ⟨0x80, 0xbf, ?_, fun k hk _ _ => by omega⟩
      obtain rfl | rfl | rfl : n = 1 ∨ n = 2 ∨ n = 3 := by omega
      all_goals rfl

/-! ## Characters and texts -/

/-- **The bytes of a character are read as the character**, and nothing is pending after them. -/
theorem readFrom_encodeChar (c : Char) (rest : List UInt8) :
    readFrom none (String.utf8EncodeChar c ++ rest) = some c :: readFrom none rest := by
  have hvalue : Char.ofNat c.val.toNat = c := Char.ofNat_toNat c
  have hvalid : c.val.toNat < 0xd800 ∨ 0xdfff < c.val.toNat ∧ c.val.toNat < 0x110000 := c.valid
  unfold String.utf8EncodeChar
  generalize c.val.toNat = v at hvalue hvalid
  dsimp only
  split
  · have hbyte : (UInt8.ofNat v).toNat = v := toNat_ofNat_byte (by omega)
    have hascii : v < 0x80 := by omega
    simp only [List.cons_append, List.nil_append, readFrom, step, start, hbyte, begin?,
      if_pos hascii, hvalue]
  split
  · rw [List.cons_append, List.cons_append, List.nil_append,
      readFrom_lead (by omega) (begin?_two (by omega) (by omega)), readFrom_last (by omega),
      show v / 64 % 32 * 64 + v % 64 = v by omega, hvalue]
  split
  · obtain ⟨least, greatest, hbegin, htail⟩ := exists_begin?_three (n := v / 4096 % 16) (by omega)
    rw [List.cons_append, List.cons_append, List.cons_append, List.nil_append,
      readFrom_lead (by omega) hbegin,
      readFrom_tail _ (by omega) (htail _ (by omega) (by omega) (by omega)),
      readFrom_last (by omega), show (v / 4096 % 16 * 64 + v / 64 % 64) * 64 + v % 64 = v by omega,
      hvalue]
  · obtain ⟨least, greatest, hbegin, htail⟩ := exists_begin?_four (n := v / 262144 % 8) (by omega)
    rw [List.cons_append, List.cons_append, List.cons_append, List.cons_append, List.nil_append,
      readFrom_lead (by omega) hbegin,
      readFrom_tail _ (by omega) (htail _ (by omega) (by omega) (by omega)),
      anyTail, readFrom_tail _ (by omega) (by omega), ← anyTail, readFrom_last (by omega),
      show ((v / 262144 % 8 * 64 + v / 4096 % 64) * 64 + v / 64 % 64) * 64 + v % 64 = v by omega,
      hvalue]

/-- The bytes of a text are read as the text. -/
theorem read_encode (cs : List Char) : read (encode cs) = cs.map some := by
  unfold read encode
  induction cs with
  | nil => rfl
  | cons c rest ih => rw [List.flatMap_cons, readFrom_encodeChar, ih, List.map_cons]

end Signpost.Utf8

namespace Signpost.Json

/-- **JSON in the bytes of a text is decoded as the text is.** -/
theorem decodeBytes_encode {α : Type} (decode : Decoder α) (cs : List Char) :
    decodeBytes decode (Utf8.encode cs) = decodeText decode (String.ofList cs) := by
  rw [decodeBytes, Utf8.read_encode, spell_map_some]

end Signpost.Json
