import ShaderStyle.Text.Utf8

/-!
# Text read back

What is encoded can be decoded, and nothing is lost (`decode_encode`). A character takes one to four
bytes. The leading byte announces how many follow and bounds the second one; the bounds rule out just
the forms that are too long, the surrogates and what is behind the last code point, so that the bytes of
a character keep to them (`decodeAt_encodeChar`).
-/

namespace ShaderStyle.Text.Utf8

theorem toNat_toUInt8 {n : Nat} (h : n < 256) : n.toUInt8.toNat = n := by
  simpa using h

/-- No character is a surrogate, and none is behind the last code point. -/
theorem toNat_range (c : Char) : c.toNat < 0xd800 ∨ 0xdfff < c.toNat ∧ c.toNat < 0x110000 :=
  c.valid

/-! ## One sequence -/

/-- A byte that continues a sequence carries six bits. -/
theorem readTail_cons {low high bits used k : Nat} {tail rest : List UInt8} (hk : k < 0x40)
    (hlow : low ≤ 0x80 + k) (hhigh : 0x80 + k ≤ high) :
    readTail low high bits used ((0x80 + k).toUInt8 :: tail).length
        ((0x80 + k).toUInt8 :: tail ++ rest) =
      readTail 0x80 0xbf (bits * 0x40 + k) (used + 1) tail.length (tail ++ rest) := by
  have hbyte : (0x80 + k).toUInt8.toNat = 0x80 + k := toNat_toUInt8 (by omega)
  rw [List.length_cons, List.cons_append, readTail, hbyte, if_pos (by simp [hlow, hhigh]),
    Nat.add_sub_cancel_left]

/-- A sequence of more than one byte is read as the character that it stands for. -/
theorem decodeAt_sequence {offset low high bits : Nat} {b : UInt8} {tail rest : List UInt8} {c : Char}
    (hlead : lead? b = some ⟨tail.length, low, high, bits⟩)
    (htail : readTail low high bits 1 tail.length (tail ++ rest) = .ok c.toNat) :
    decodeAt offset (b :: tail ++ rest) =
      (decodeAt (offset + (b :: tail).length) rest).map (c :: ·) := by
  have hb : ¬ b.toNat < 0x80 := by
    intro hb
    have hnone : lead? b = none := if_pos (by omega)
    simp [hnone] at hlead
  rw [List.cons_append, decodeAt, if_neg hb, hlead]
  simp only [htail, List.drop_left, Char.ofNat_toNat, List.length_cons]
  rw [Nat.add_assoc, Nat.add_comm 1]

/-! ## Leading bytes -/

/-- What the leading byte of a sequence of three bytes announces; the second byte is within its
bounds. -/
theorem lead?_three {n : Nat} (hlong : 0x800 ≤ n) (hshort : n < 0x10000)
    (hvalid : n < 0xd800 ∨ 0xdfff < n) :
    ∃ low high, lead? (0xe0 + n / 0x1000).toUInt8 = some ⟨2, low, high, n / 0x1000⟩ ∧
      low ≤ 0x80 + n / 0x40 % 0x40 ∧ 0x80 + n / 0x40 % 0x40 ≤ high := by
  have hbyte : (0xe0 + n / 0x1000).toUInt8.toNat = 0xe0 + n / 0x1000 := toNat_toUInt8 (by omega)
  simp only [lead?, hbyte, Nat.add_sub_cancel_left]
  rw [if_neg (by omega), if_neg (by omega)]
  split
  · rename_i hfirst
    have hbits : n / 0x1000 = 0 := by omega
    rw [hbits]
    exact ⟨0xa0, 0xbf, rfl, by omega, by omega⟩
  split
  · rename_i hsurrogates
    have hbits : n / 0x1000 = 13 := by omega
    rw [hbits]
    exact ⟨0x80, 0x9f, rfl, by omega, by omega⟩
  · rw [if_pos (by omega)]
    exact ⟨0x80, 0xbf, rfl, by omega, by omega⟩

/-- What the leading byte of a sequence of four bytes announces. -/
theorem lead?_four {n : Nat} (hlong : 0x10000 ≤ n) (hlast : n < 0x110000) :
    ∃ low high, lead? (0xf0 + n / 0x40000).toUInt8 = some ⟨3, low, high, n / 0x40000⟩ ∧
      low ≤ 0x80 + n / 0x1000 % 0x40 ∧ 0x80 + n / 0x1000 % 0x40 ≤ high := by
  have hbyte : (0xf0 + n / 0x40000).toUInt8.toNat = 0xf0 + n / 0x40000 := toNat_toUInt8 (by omega)
  simp only [lead?, hbyte, Nat.add_sub_cancel_left]
  rw [if_neg (by omega), if_neg (by omega), if_neg (by omega), if_neg (by omega), if_neg (by omega)]
  split
  · rename_i hfirst
    have hbits : n / 0x40000 = 0 := by omega
    rw [hbits]
    exact ⟨0x90, 0xbf, rfl, by omega, by omega⟩
  split
  · exact ⟨0x80, 0xbf, rfl, by omega, by omega⟩
  · have hbits : n / 0x40000 = 4 := by omega
    rw [if_pos (by omega), hbits]
    exact ⟨0x80, 0x8f, rfl, by omega, by omega⟩

/-! ## One character -/

theorem decodeAt_encodeChar (offset : Nat) (c : Char) (rest : List UInt8) :
    decodeAt offset (encodeChar c ++ rest) =
      (decodeAt (offset + (encodeChar c).length) rest).map (c :: ·) := by
  have hrange := toNat_range c
  unfold encodeChar
  simp only
  split
  · rename_i hone
    have hbyte : c.toNat.toUInt8.toNat = c.toNat := toNat_toUInt8 (by omega)
    rw [List.singleton_append, decodeAt, hbyte, if_pos hone, Char.ofNat_toNat]
    rfl
  split
  · rename_i htwo
    have hbyte : (0xc0 + c.toNat / 0x40).toUInt8.toNat = 0xc0 + c.toNat / 0x40 :=
      toNat_toUInt8 (by omega)
    have hlead : lead? (0xc0 + c.toNat / 0x40).toUInt8 = some ⟨1, 0x80, 0xbf, c.toNat / 0x40⟩ := by
      simp only [lead?, hbyte, Nat.add_sub_cancel_left]
      rw [if_neg (by omega), if_pos (by omega)]
    refine decodeAt_sequence hlead ?_
    rw [readTail_cons (by omega) (by omega) (by omega), List.length_nil, readTail]
    congr 1
    omega
  split
  · rename_i hthree
    obtain ⟨low, high, hlead, hlow, hhigh⟩ := lead?_three (n := c.toNat) (by omega) hthree (by omega)
    refine decodeAt_sequence hlead ?_
    rw [readTail_cons (by omega) hlow hhigh, readTail_cons (by omega) (by omega) (by omega),
      List.length_nil, readTail]
    congr 1
    omega
  · rename_i hfour
    obtain ⟨low, high, hlead, hlow, hhigh⟩ := lead?_four (n := c.toNat) (by omega) (by omega)
    refine decodeAt_sequence hlead ?_
    rw [readTail_cons (by omega) hlow hhigh, readTail_cons (by omega) (by omega) (by omega),
      readTail_cons (by omega) (by omega) (by omega), List.length_nil, readTail]
    congr 1
    omega

/-! ## Texts -/

theorem decodeAt_encode (t : Text) (offset : Nat) : decodeAt offset (encode t) = .ok t := by
  induction t generalizing offset with
  | nil => simp [encode, decodeAt]
  | cons c t ih =>
    rw [encode, List.flatMap_cons, decodeAt_encodeChar]
    rw [encode] at ih
    rw [ih]
    rfl

/-- Decoding gives back the text that was encoded. -/
theorem decode_encode (t : Text) : decode (encode t) = .ok t :=
  decodeAt_encode t 0

end ShaderStyle.Text.Utf8
