import ArrowScript.Text.Utf8

namespace ArrowScript.Text

/-!
# UTF-8 reads back what it writes

The bytes of a character are those of its standard encoding, and reading them
gives the character back whatever bytes follow.
-/

theorem toNat_toUInt8 {value : Nat} (small : value < 256) : value.toUInt8.toNat = value :=
  Nat.mod_eq_of_lt small

theorem toNat_valid (character : Char) :
    character.toNat < 0xd800 ∨ 0xdfff < character.toNat ∧ character.toNat < 0x110000 :=
  character.valid

theorem encodeCharacter_eq (char : Char) : encodeCharacter char = String.utf8EncodeChar char := by
  have isValid := toNat_valid char
  unfold encodeCharacter String.utf8EncodeChar
  simp only [Char.toNat_val, Nat.toUInt8] at isValid ⊢
  generalize char.toNat = code at isValid ⊢
  by_cases one : code < 0x80
  · rw [if_pos one, if_pos (by omega)]
  by_cases two : code < 0x800
  · rw [if_neg one, if_pos two, if_neg (by omega), if_pos (by omega),
      Nat.mod_eq_of_lt (show code / 64 < 32 by omega)]
    simp only [Nat.add_comm]
  by_cases three : code < 0x10000
  · rw [if_neg one, if_neg two, if_pos three, if_neg (by omega), if_neg (by omega),
      if_pos (by omega), Nat.mod_eq_of_lt (show code / 4096 < 16 by omega)]
    simp only [Nat.add_comm]
  · rw [if_neg one, if_neg two, if_neg three, if_neg (by omega), if_neg (by omega),
      if_neg (by omega), Nat.mod_eq_of_lt (show code / 262144 < 8 by omega)]
    simp only [Nat.add_comm]

theorem encode_eq_toUTF8 (text : String) : encode text.toList = text.toUTF8.data.toList := by
  rw [String.toUTF8, ← String.utf8Encode_toList, List.utf8Encode, List.data_toByteArray]
  simp [encode, funext encodeCharacter_eq]

@[simp]
theorem isContinuation_tail (code : Nat) : isContinuation (0x80 + code % 0x40).toUInt8 = true := by
  have isByte := toNat_toUInt8 (show 0x80 + code % 0x40 < 256 by omega)
  simp only [isContinuation, UInt8.lt_iff_toNat_lt, UInt8.le_iff_toNat_le, isByte,
    UInt8.reduceToNat, Bool.and_eq_true, decide_eq_true_eq]
  omega

@[simp]
theorem payload_tail (code : Nat) : payload (0x80 + code % 0x40).toUInt8 = code % 0x40 := by
  rw [payload, toNat_toUInt8 (by omega)]
  omega

/-- The bytes of a character are read as that character, whatever follows them. -/
theorem decodeNext_encodeCharacter (char : Char) (rest : List UInt8) :
    ∃ first tail, encodeCharacter char = first :: tail ∧
      decodeNext first (tail ++ rest) = .character char (tail.length + 1) := by
  have isValid := toNat_valid char
  have isCharacter := Char.ofNat_toNat char
  unfold encodeCharacter
  simp only
  generalize char.toNat = code at *
  by_cases one : code < 0x80
  · have isFirst := toNat_toUInt8 (show code < 256 by omega)
    refine ⟨_, _, if_pos one, ?_⟩
    simp only [decodeNext, UInt8.lt_iff_toNat_lt, isFirst, UInt8.reduceToNat]
    rw [if_pos one, isCharacter]
    rfl
  by_cases two : code < 0x800
  · have isFirst := toNat_toUInt8 (show 0xc0 + code / 0x40 < 256 by omega)
    refine ⟨_, _, by rw [if_neg one, if_pos two], ?_⟩
    simp only [decodeNext, UInt8.lt_iff_toNat_lt, isFirst, UInt8.reduceToNat, decodeTwo,
      List.cons_append, isContinuation_tail, payload_tail, ↓reduceIte]
    rw [if_neg (by omega), if_neg (by omega), if_pos (by omega), ← isCharacter]
    congr 2
    omega
  by_cases three : code < 0x10000
  · have isFirst := toNat_toUInt8 (show 0xe0 + code / 0x1000 < 256 by omega)
    have isSecond := toNat_toUInt8 (show 0x80 + code / 0x40 % 0x40 < 256 by omega)
    have fits : fitsThree (0xe0 + code / 0x1000).toUInt8
        (0x80 + code / 0x40 % 0x40).toUInt8 = true := by
      simp only [fitsThree, isContinuation_tail, ← UInt8.toNat_inj, UInt8.lt_iff_toNat_lt,
        UInt8.le_iff_toNat_le, isFirst, isSecond, UInt8.reduceToNat, Bool.and_eq_true,
        Bool.not_eq_true', Bool.and_eq_false_iff, beq_eq_false_iff_ne, decide_eq_false_iff_not,
        ne_eq, true_and]
      omega
    refine ⟨_, _, by rw [if_neg one, if_neg two, if_pos three], ?_⟩
    simp only [decodeNext, UInt8.lt_iff_toNat_lt, isFirst, UInt8.reduceToNat, decodeThree,
      List.cons_append, fits, isContinuation_tail, payload_tail, ↓reduceIte]
    rw [if_neg (by omega), if_neg (by omega), if_neg (by omega), if_pos (by omega), ← isCharacter]
    congr 2
    omega
  · have isFirst := toNat_toUInt8 (show 0xf0 + code / 0x40000 < 256 by omega)
    have isSecond := toNat_toUInt8 (show 0x80 + code / 0x1000 % 0x40 < 256 by omega)
    have fits : fitsFour (0xf0 + code / 0x40000).toUInt8
        (0x80 + code / 0x1000 % 0x40).toUInt8 = true := by
      simp only [fitsFour, isContinuation_tail, ← UInt8.toNat_inj, UInt8.lt_iff_toNat_lt,
        UInt8.le_iff_toNat_le, isFirst, isSecond, UInt8.reduceToNat, Bool.and_eq_true,
        Bool.not_eq_true', Bool.and_eq_false_iff, beq_eq_false_iff_ne, decide_eq_false_iff_not,
        ne_eq, true_and]
      omega
    refine ⟨_, _, by rw [if_neg one, if_neg two, if_neg three], ?_⟩
    simp only [decodeNext, UInt8.lt_iff_toNat_lt, isFirst, UInt8.reduceToNat, decodeFour,
      List.cons_append, fits, isContinuation_tail, payload_tail, ↓reduceIte]
    rw [if_neg (by omega), if_neg (by omega), if_neg (by omega), if_neg (by omega),
      if_pos (by omega), ← isCharacter]
    congr 2
    omega

theorem decodeFrom_encode (offset : Nat) (text : List Char) :
    decodeFrom offset (encode text) = .ok text := by
  induction text generalizing offset with
  | nil => simp [encode, decodeFrom]
  | cons char text ih =>
    obtain ⟨first, tail, isEncoded, isDecoded⟩ :=
      decodeNext_encodeCharacter char (encode text)
    have opened : encode (char :: text) = first :: (tail ++ encode text) := by
      rw [encode, List.flatMap_cons, isEncoded, List.cons_append, encode]
    rw [opened, decodeFrom, isDecoded]
    simp [ih, Except.map]

end ArrowScript.Text
