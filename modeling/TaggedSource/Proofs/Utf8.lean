/-
Reading UTF-8 loses nothing: the bytes that spell a text are the bytes of
the text (`encode_of_decode`). A byte sequence with no flaw has therefore
one text, and a text that is written where it was read leaves the bytes
as they were. Nor does writing lose anything: the bytes of a text spell it
(`decode_encode`).

The lead byte fixes the number of further bytes, so a character is one of
four sums, and its bytes are the digits of the sum.
-/
import TaggedSource.Utf8

namespace TaggedSource.Utf8

/-- What is read behind a lead byte: so many bytes, the first of them in
the range and the others from 0x80 to 0xBF, which are the digits of the
value. -/
theorem readTail_succ_eq_ok {seen count value value' : Nat} {range : Nat × Nat}
    {bytes rest : Bytes}
    (h : readTail seen (count + 1) range value bytes = .ok (value', rest)) :
    ∃ b bytes', bytes = b :: bytes' ∧ range.1 ≤ b.toNat ∧ b.toNat ≤ range.2 ∧
      readTail (seen + 1) count (0x80, 0xBF) (value * 64 + (b.toNat - 0x80)) bytes'
        = .ok (value', rest) := by
  cases bytes with
  | nil => simp [readTail] at h
  | cons b bytes =>
      rw [readTail] at h
      split at h
      · next hb => exact ⟨b, bytes, rfl, hb.1, hb.2, h⟩
      · simp at h

/-- The bytes of the character with a number. -/
theorem encodeChar_ofNat {n : Nat} (h : n.isValidChar) :
    encodeChar (Char.ofNat n) =
      if n ≤ 0x7F then [.ofNat n]
      else if n ≤ 0x7FF then [.ofNat (n / 64 % 0x20 + 0xC0), .ofNat (n % 0x40 + 0x80)]
      else if n ≤ 0xFFFF then
        [.ofNat (n / 4096 % 0x10 + 0xE0), .ofNat (n / 64 % 0x40 + 0x80), .ofNat (n % 0x40 + 0x80)]
      else
        [.ofNat (n / 262144 % 0x08 + 0xF0), .ofNat (n / 4096 % 0x40 + 0x80),
          .ofNat (n / 64 % 0x40 + 0x80), .ofNat (n % 0x40 + 0x80)] := by
  have hval : (Char.ofNat n).val.toNat = n := by
    unfold Char.ofNat
    rw [dif_pos h]
    rfl
  unfold encodeChar String.utf8EncodeChar
  rw [hval]

/-- A byte is told by its number. -/
theorem ofNat_eq_of_toNat {n : Nat} {b : UInt8} (h : n = b.toNat) : UInt8.ofNat n = b := by
  rw [h, UInt8.ofNat_toNat]

/-- The second bytes that a lead byte allows, and what it rules out: the
overlong forms, the surrogates and the numbers past the last character. -/
theorem secondRange_bounds (lead : Nat) :
    0x80 ≤ (secondRange lead).1 ∧ (secondRange lead).2 ≤ 0xBF ∧
      (lead = 0xE0 → 0xA0 ≤ (secondRange lead).1) ∧
      (lead = 0xED → (secondRange lead).2 ≤ 0x9F) ∧
      (lead = 0xF0 → 0x90 ≤ (secondRange lead).1) ∧
      (lead = 0xF4 → (secondRange lead).2 ≤ 0x8F) := by
  unfold secondRange
  split <;> (try split) <;> (try split) <;> (try split) <;> simp_all

/-- The character behind a lead byte is spelled by the lead byte and the
bytes that were read behind it. -/
theorem encodeChar_of_readTail {lead : UInt8} {count value value' : Nat} {bytes rest : Bytes}
    (hlead : tailCount lead.toNat = some (count, value))
    (h : readTail 1 count (secondRange lead.toNat) value bytes = .ok (value', rest)) :
    encodeChar (Char.ofNat value') ++ rest = lead :: bytes := by
  have hlt := lead.toNat_lt
  obtain ⟨hlow, hhigh, hE0, hED, hF0, hF4⟩ := secondRange_bounds lead.toNat
  unfold tailCount at hlead
  split at hlead
  · -- a byte by itself
    obtain ⟨rfl, rfl⟩ : 0 = count ∧ lead.toNat = value := by simpa using hlead
    obtain ⟨rfl, rfl⟩ : lead.toNat = value' ∧ bytes = rest := by simpa [readTail] using h
    rw [encodeChar_ofNat (.inl (by omega)), if_pos (by omega), ofNat_eq_of_toNat rfl]
    rfl
  split at hlead
  · -- one further byte
    obtain ⟨rfl, rfl⟩ : 1 = count ∧ lead.toNat - 0xC0 = value := by simpa using hlead
    obtain ⟨b, after, rfl, hb, hb', h⟩ := readTail_succ_eq_ok h
    obtain ⟨hvalue, rfl⟩ : (lead.toNat - 0xC0) * 64 + (b.toNat - 0x80) = value' ∧ after = rest := by
      simpa [readTail] using h
    rw [encodeChar_ofNat (.inl (by omega)), if_neg (by omega), if_pos (by omega),
      ofNat_eq_of_toNat (b := lead) (by omega), ofNat_eq_of_toNat (b := b) (by omega)]
    rfl
  split at hlead
  · -- two further bytes
    obtain ⟨rfl, rfl⟩ : 2 = count ∧ lead.toNat - 0xE0 = value := by simpa using hlead
    obtain ⟨b, after, rfl, hb, hb', h⟩ := readTail_succ_eq_ok h
    obtain ⟨c, after, rfl, hc, hc', h⟩ := readTail_succ_eq_ok h
    obtain ⟨hvalue, rfl⟩ : ((lead.toNat - 0xE0) * 64 + (b.toNat - 0x80)) * 64 + (c.toNat - 0x80)
        = value' ∧ after = rest := by simpa [readTail] using h
    have hvalid : value'.isValidChar := by
      unfold Nat.isValidChar
      omega
    rw [encodeChar_ofNat hvalid, if_neg (by omega), if_neg (by omega), if_pos (by omega),
      ofNat_eq_of_toNat (b := lead) (by omega), ofNat_eq_of_toNat (b := b) (by omega),
      ofNat_eq_of_toNat (b := c) (by omega)]
    rfl
  split at hlead
  · -- three further bytes
    obtain ⟨rfl, rfl⟩ : 3 = count ∧ lead.toNat - 0xF0 = value := by simpa using hlead
    obtain ⟨b, after, rfl, hb, hb', h⟩ := readTail_succ_eq_ok h
    obtain ⟨c, after, rfl, hc, hc', h⟩ := readTail_succ_eq_ok h
    obtain ⟨d, after, rfl, hd, hd', h⟩ := readTail_succ_eq_ok h
    obtain ⟨hvalue, rfl⟩ : (((lead.toNat - 0xF0) * 64 + (b.toNat - 0x80)) * 64
        + (c.toNat - 0x80)) * 64 + (d.toNat - 0x80) = value' ∧ after = rest := by
      simpa [readTail] using h
    have hvalid : value'.isValidChar := by
      unfold Nat.isValidChar
      omega
    rw [encodeChar_ofNat hvalid, if_neg (by omega), if_neg (by omega), if_neg (by omega),
      ofNat_eq_of_toNat (b := lead) (by omega), ofNat_eq_of_toNat (b := b) (by omega),
      ofNat_eq_of_toNat (b := c) (by omega), ofNat_eq_of_toNat (b := d) (by omega)]
    rfl
  · simp at hlead

/-- The same for bytes that begin at an offset. -/
theorem encode_of_decodeFrom {offset : Nat} {bytes : Bytes} {t : Text}
    (h : decodeFrom offset bytes = .ok t) : encode t = bytes := by
  fun_induction decodeFrom offset bytes generalizing t with
  | case1 =>
      cases h
      rfl
  | case6 offset lead bytes count value hlead value' rest htail u hrest ih =>
      cases h
      have hrest' := ih hrest
      rw [← encodeChar_of_readTail hlead htail, ← hrest']
      rfl
  | _ => cases h

/-- Bytes that spell a text are the bytes of the text. -/
theorem encode_of_decode {bytes : Bytes} {t : Text} (h : decode bytes = .ok t) :
    encode t = bytes :=
  encode_of_decodeFrom h

-- ================================================== written and read back

/-- Bytes behind a lead byte that are in order give a character. -/
theorem decodeFrom_of_readTail {offset : Nat} {lead : UInt8} {count value value' : Nat}
    {bytes rest : Bytes} (hlead : tailCount lead.toNat = some (count, value))
    (h : readTail 1 count (secondRange lead.toNat) value bytes = .ok (value', rest)) :
    decodeFrom offset (lead :: bytes)
      = (decodeFrom (offset + 1 + count) rest).map (Char.ofNat value' :: ·) := by
  rw [decodeFrom]
  simp only [hlead]
  split
  · next heq => rw [h] at heq; cases heq
  · next heq => rw [h] at heq; cases heq
  · next heq =>
    rw [h] at heq
    cases heq
    cases decodeFrom (offset + 1 + count) rest <;> rfl

private theorem toNat_ofNat_of_lt {n : Nat} (h : n < 256) : (UInt8.ofNat n).toNat = n := by
  rw [UInt8.toNat_ofNat']
  exact Nat.mod_eq_of_lt h

/-- The second bytes that `secondRange_bounds` does not rule out are allowed. -/
theorem mem_secondRange {lead digit : Nat} (hdigit : digit < 64)
    (hE0 : lead = 0xE0 → 0x20 ≤ digit) (hED : lead = 0xED → digit < 0x20)
    (hF0 : lead = 0xF0 → 0x10 ≤ digit) (hF4 : lead = 0xF4 → digit < 0x10) :
    (secondRange lead).1 ≤ digit + 0x80 ∧ digit + 0x80 ≤ (secondRange lead).2 := by
  unfold secondRange
  repeat' split
  all_goals constructor <;> dsimp only <;> omega

/-- A further byte is read as a digit, if it is in its range. -/
theorem readTail_digit {seen count value digit : Nat} {range : Nat × Nat} {bytes : Bytes}
    (hdigit : digit < 64) (h : range.1 ≤ digit + 0x80 ∧ digit + 0x80 ≤ range.2) :
    readTail seen (count + 1) range value (UInt8.ofNat (digit + 0x80) :: bytes)
      = readTail (seen + 1) count (0x80, 0xBF) (value * 64 + digit) bytes := by
  have hbyte : (UInt8.ofNat (digit + 0x80)).toNat = digit + 0x80 := toNat_ofNat_of_lt (by omega)
  rw [readTail, hbyte, if_pos h, Nat.add_sub_cancel]

/-- The bytes of a character are read as the character. -/
theorem decodeFrom_encodeChar (offset : Nat) (c : Char) (rest : Bytes) :
    ∃ next, decodeFrom offset (encodeChar c ++ rest) = (decodeFrom next rest).map (c :: ·) := by
  have hvalid : c.toNat.isValidChar := c.valid
  rw [← Char.ofNat_toNat c, encodeChar_ofNat hvalid]
  generalize c.toNat = n at hvalid
  unfold Nat.isValidChar at hvalid
  split
  · -- a byte by itself
    have hlead : (UInt8.ofNat n).toNat = n := toNat_ofNat_of_lt (by omega)
    have hcount : tailCount (UInt8.ofNat n).toNat = some (0, n) := by
      rw [hlead, tailCount, if_pos (by omega)]
    exact ⟨_, decodeFrom_of_readTail hcount rfl⟩
  split
  · -- one further byte
    have hlead : (UInt8.ofNat (n / 64 % 0x20 + 0xC0)).toNat = n / 64 + 0xC0 := by
      rw [toNat_ofNat_of_lt (by omega)]
      omega
    have hcount : tailCount (n / 64 + 0xC0) = some (1, n / 64) := by
      rw [tailCount, if_neg (by omega), if_pos (by omega), Nat.add_sub_cancel]
    have hsecond : (secondRange (n / 64 + 0xC0)).1 ≤ n % 64 + 0x80 ∧
        n % 64 + 0x80 ≤ (secondRange (n / 64 + 0xC0)).2 :=
      mem_secondRange (by omega) (by omega) (by omega) (by omega) (by omega)
    refine ⟨_, decodeFrom_of_readTail (hlead.symm ▸ hcount) ?_⟩
    rw [hlead]
    refine (readTail_digit (by omega) hsecond).trans ?_
    rw [readTail, show n / 64 * 64 + n % 64 = n by omega]
    rfl
  split
  · -- two further bytes
    have hlead : (UInt8.ofNat (n / 4096 % 0x10 + 0xE0)).toNat = n / 4096 + 0xE0 := by
      rw [toNat_ofNat_of_lt (by omega)]
      omega
    have hcount : tailCount (n / 4096 + 0xE0) = some (2, n / 4096) := by
      rw [tailCount, if_neg (by omega), if_neg (by omega), if_pos (by omega), Nat.add_sub_cancel]
    have hsecond : (secondRange (n / 4096 + 0xE0)).1 ≤ n / 64 % 64 + 0x80 ∧
        n / 64 % 64 + 0x80 ≤ (secondRange (n / 4096 + 0xE0)).2 :=
      mem_secondRange (by omega) (by omega) (by omega) (by omega) (by omega)
    refine ⟨_, decodeFrom_of_readTail (hlead.symm ▸ hcount) ?_⟩
    rw [hlead]
    refine (readTail_digit (by omega) hsecond).trans ?_
    refine (readTail_digit (by omega) (by omega)).trans ?_
    rw [readTail, show (n / 4096 * 64 + n / 64 % 64) * 64 + n % 64 = n by omega]
    rfl
  · -- three further bytes
    have hlead : (UInt8.ofNat (n / 262144 % 0x08 + 0xF0)).toNat = n / 262144 + 0xF0 := by
      rw [toNat_ofNat_of_lt (by omega)]
      omega
    have hcount : tailCount (n / 262144 + 0xF0) = some (3, n / 262144) := by
      rw [tailCount, if_neg (by omega), if_neg (by omega), if_neg (by omega), if_pos (by omega),
        Nat.add_sub_cancel]
    have hsecond : (secondRange (n / 262144 + 0xF0)).1 ≤ n / 4096 % 64 + 0x80 ∧
        n / 4096 % 64 + 0x80 ≤ (secondRange (n / 262144 + 0xF0)).2 :=
      mem_secondRange (by omega) (by omega) (by omega) (by omega) (by omega)
    refine ⟨_, decodeFrom_of_readTail (hlead.symm ▸ hcount) ?_⟩
    rw [hlead]
    refine (readTail_digit (by omega) hsecond).trans ?_
    refine (readTail_digit (by omega) (by omega)).trans ?_
    refine (readTail_digit (by omega) (by omega)).trans ?_
    rw [readTail,
      show ((n / 262144 * 64 + n / 4096 % 64) * 64 + n / 64 % 64) * 64 + n % 64 = n by omega]
    rfl

/-- The bytes of a text spell the text. -/
theorem decode_encode (t : Text) : decode (encode t) = .ok t := by
  have hfrom (offset : Nat) : decodeFrom offset (encode t) = .ok t := by
    induction t generalizing offset with
    | nil => rw [encode, List.flatMap_nil, decodeFrom]
    | cons c t ih =>
        obtain ⟨next, hnext⟩ := decodeFrom_encodeChar offset c (encode t)
        rw [encode, List.flatMap_cons]
        rw [ih] at hnext
        exact hnext
  exact hfrom 0

end TaggedSource.Utf8
