import Correlator.Text.Field

/-!
# Text that was encoded

Decoding gives back every text that was encoded, whatever characters it is made of:
`decode_encode`.  It rests on one character in front of any other bytes.
-/

namespace Correlator
namespace Utf8

/-- A continuation byte within its bounds brings its six bits. -/
theorem continuation_cons {count low high code bits : Nat} (hbits : bits < 64)
    (hlow : low ≤ bits + 128) (hhigh : bits + 128 ≤ high) (rest : List UInt8) :
    continuation (count + 1) low high code (UInt8.ofNat (bits + 128) :: rest)
      = continuation count 0x80 0xBF (code * 64 + bits) rest := by
  have hbyte : (UInt8.ofNat (bits + 128)).toNat = bits + 128 := by
    rw [UInt8.toNat_ofNat']
    omega
  rw [continuation, hbyte, if_pos ⟨hlow, hhigh⟩, Nat.add_sub_cancel]

/-- A lead byte that announces further bytes is followed by them. -/
theorem next_of_announced {lead count low high code : Nat} {others rest : List UInt8} {c : Char}
    (hlead : 128 ≤ lead) (hlt : lead < 256)
    (hannounced : announced lead = some (count, low, high, code))
    (hrest : continuation count low high code others = (some c.toNat, rest)) :
    next (UInt8.ofNat lead) others = (c, rest) := by
  have hbyte : (UInt8.ofNat lead).toNat = lead := by
    rw [UInt8.toNat_ofNat']
    omega
  rw [next, hbyte, if_neg (by omega), hannounced]
  dsimp only
  rw [hrest]
  exact congrArg (·, rest) (Char.ofNat_toNat c)

/- What a lead byte announces, by the length of the sequence that it opens. -/

theorem announced_two {bits : Nat} (hlow : 2 ≤ bits) (hhigh : bits < 32) :
    announced (bits + 192) = some (1, 0x80, 0xBF, bits) := by
  rw [announced, if_pos (by omega), Nat.add_sub_cancel]

theorem announced_three {bits : Nat} (hhigh : bits < 16) :
    announced (bits + 224) = some (2, if bits = 0 then 0xA0 else 0x80,
      if bits = 13 then 0x9F else 0xBF, bits) := by
  rw [announced, if_neg (by omega)]
  by_cases hfirst : bits = 0
  · subst hfirst
    rfl
  by_cases hsurrogate : bits = 13
  · subst hsurrogate
    rfl
  · rw [if_neg (by omega), if_neg (by omega), if_pos (by omega), if_neg hfirst,
      if_neg hsurrogate, Nat.add_sub_cancel]

theorem announced_four {bits : Nat} (hhigh : bits < 5) :
    announced (bits + 240) = some (3, if bits = 0 then 0x90 else 0x80,
      if bits = 4 then 0x8F else 0xBF, bits) := by
  match bits, hhigh with
  | 0, _ | 1, _ | 2, _ | 3, _ | 4, _ => rfl

/- The character in front, by the length of its sequence.  The bounds on the second byte are
narrowed where a shorter sequence would do, at the surrogates, and past the last code point. -/

theorem next_two {c : Char} (hlow : 128 ≤ c.toNat) (hhigh : c.toNat < 2048) (rest : List UInt8) :
    next (UInt8.ofNat (c.toNat / 64 % 32 + 192)) (UInt8.ofNat (c.toNat % 64 + 128) :: rest)
      = (c, rest) := by
  have hlead : c.toNat / 64 % 32 = c.toNat / 64 := by omega
  have hcode : c.toNat / 64 * 64 + c.toNat % 64 = c.toNat := by omega
  rw [hlead]
  refine next_of_announced (by omega) (by omega) (announced_two (by omega) (by omega)) ?_
  rw [continuation_cons (by omega) (by omega) (by omega), hcode, continuation]

theorem next_three {c : Char} (hlow : 2048 ≤ c.toNat) (hhigh : c.toNat < 65536)
    (rest : List UInt8) :
    next (UInt8.ofNat (c.toNat / 4096 % 16 + 224)) (UInt8.ofNat (c.toNat / 64 % 64 + 128) ::
      UInt8.ofNat (c.toNat % 64 + 128) :: rest) = (c, rest) := by
  have hvalid : c.toNat < 0xD800 ∨ 0xDFFF < c.toNat ∧ c.toNat < 0x110000 := c.valid
  have hlead : c.toNat / 4096 % 16 = c.toNat / 4096 := by omega
  have hcode : (c.toNat / 4096 * 64 + c.toNat / 64 % 64) * 64 + c.toNat % 64 = c.toNat := by omega
  rw [hlead]
  refine next_of_announced (by omega) (by omega) (announced_three (by omega)) ?_
  rw [continuation_cons (by omega) (by split <;> omega) (by split <;> omega),
    continuation_cons (by omega) (by omega) (by omega), hcode, continuation]

theorem next_four {c : Char} (hlow : 65536 ≤ c.toNat) (rest : List UInt8) :
    next (UInt8.ofNat (c.toNat / 262144 % 8 + 240)) (UInt8.ofNat (c.toNat / 4096 % 64 + 128) ::
      UInt8.ofNat (c.toNat / 64 % 64 + 128) :: UInt8.ofNat (c.toNat % 64 + 128) :: rest)
      = (c, rest) := by
  have hvalid : c.toNat < 0xD800 ∨ 0xDFFF < c.toNat ∧ c.toNat < 0x110000 := c.valid
  have hlead : c.toNat / 262144 % 8 = c.toNat / 262144 := by omega
  have hcode : ((c.toNat / 262144 * 64 + c.toNat / 4096 % 64) * 64 + c.toNat / 64 % 64) * 64
      + c.toNat % 64 = c.toNat := by omega
  rw [hlead]
  refine next_of_announced (by omega) (by omega) (announced_four (by omega)) ?_
  rw [continuation_cons (by omega) (by split <;> omega) (by split <;> omega),
    continuation_cons (by omega) (by omega) (by omega),
    continuation_cons (by omega) (by omega) (by omega), hcode, continuation]

/-- The sequence of a character is read as that character, whatever stands behind it. -/
theorem exists_next_encodeChar (c : Char) (rest : List UInt8) :
    ∃ lead others, String.utf8EncodeChar c ++ rest = lead :: others ∧
      next lead others = (c, rest) := by
  have hval : c.val.toNat = c.toNat := rfl
  fun_cases String.utf8EncodeChar c with
  | case1 v hone =>
    have hbyte : (UInt8.ofNat v).toNat = c.toNat := by
      rw [UInt8.toNat_ofNat']
      omega
    refine ⟨_, rest, rfl, ?_⟩
    rw [next, hbyte, if_pos (by omega), Char.ofNat_toNat]
  | case2 v hone htwo => exact ⟨_, _, rfl, next_two (by omega) (by omega) rest⟩
  | case3 v hone htwo hthree => exact ⟨_, _, rfl, next_three (by omega) (by omega) rest⟩
  | case4 v hone htwo hthree => exact ⟨_, _, rfl, next_four (by omega) rest⟩

theorem decodeChars_encode (chars : List Char) :
    decodeChars (chars.flatMap String.utf8EncodeChar) = chars := by
  induction chars with
  | nil => rw [List.flatMap_nil, decodeChars]
  | cons c chars ih =>
    obtain ⟨lead, others, hbytes, hnext⟩ :=
      exists_next_encodeChar c (chars.flatMap String.utf8EncodeChar)
    rw [List.flatMap_cons, hbytes, decodeChars, hnext, ih]

theorem decode_encode (text : String) : decode (encode text) = text := by
  rw [decode, encode, decodeChars_encode, String.ofList_toList]

end Utf8
end Correlator
