/-!
# Text in fields

A text field of fixed width holds UTF-8 up to its first NUL; a list of names holds
them one after another, each ended by a NUL.  `Utf8.decode` reads any bytes as text:
well-formed sequences become their characters, and every longest beginning of a sequence
that goes no further becomes U+FFFD.
-/

namespace Correlator
namespace Utf8

/-- Stands for bytes that spell no character. -/
def replacement : Char := '\uFFFD'

/-- What a lead byte announces: the number of further bytes, the bounds on the first
of them, and the high bits of the code point.  The narrowed bounds keep out overlong
forms, surrogates and code points past U+10FFFF. -/
def announced (lead : Nat) : Option (Nat × Nat × Nat × Nat) :=
  if 0xC2 ≤ lead ∧ lead ≤ 0xDF then some (1, 0x80, 0xBF, lead - 0xC0)
  else if lead = 0xE0 then some (2, 0xA0, 0xBF, 0)
  else if lead = 0xED then some (2, 0x80, 0x9F, 0xD)
  else if 0xE1 ≤ lead ∧ lead ≤ 0xEF then some (2, 0x80, 0xBF, lead - 0xE0)
  else if lead = 0xF0 then some (3, 0x90, 0xBF, 0)
  else if 0xF1 ≤ lead ∧ lead ≤ 0xF3 then some (3, 0x80, 0xBF, lead - 0xF0)
  else if lead = 0xF4 then some (3, 0x80, 0x8F, 4)
  else none

/-- Take up to `count` continuation bytes, six bits each, the first between `low` and
`high`.  Gives the code point if all are there, and what is left either way. -/
def continuation : Nat → Nat → Nat → Nat → List UInt8 → Option Nat × List UInt8
  | 0, _, _, code, rest => (some code, rest)
  | _ + 1, _, _, _, [] => (none, [])
  | count + 1, low, high, code, b :: rest =>
    if low ≤ b.toNat ∧ b.toNat ≤ high then
      continuation count 0x80 0xBF (code * 64 + (b.toNat - 0x80)) rest
    else (none, b :: rest)

/-- The first character that a lead byte and the bytes after it spell, and the bytes
after that. -/
def next (lead : UInt8) (rest : List UInt8) : Char × List UInt8 :=
  if lead.toNat < 0x80 then (Char.ofNat lead.toNat, rest)
  else match announced lead.toNat with
    | none => (replacement, rest)
    | some (count, low, high, code) =>
      match continuation count low high code rest with
      | (some code, rest) => (Char.ofNat code, rest)
      | (none, rest) => (replacement, rest)

theorem length_continuation_le (count low high code : Nat) (bytes : List UInt8) :
    (continuation count low high code bytes).2.length ≤ bytes.length := by
  fun_induction continuation count low high code bytes with
  | case1 => simp
  | case2 => simp
  | case3 count low high code b rest h ih => simp only [List.length_cons]; omega
  | case4 => simp

theorem length_next_le (lead : UInt8) (rest : List UInt8) :
    (next lead rest).2.length ≤ rest.length := by
  unfold next
  split
  · simp
  · split
    · simp
    · rename_i count low high code _
      have h := length_continuation_le count low high code rest
      split <;> rename_i heq <;> rw [heq] at h <;> exact h

/-- The characters that bytes spell. -/
def decodeChars (bytes : List UInt8) : List Char :=
  match bytes with
  | [] => []
  | lead :: rest => (next lead rest).1 :: decodeChars (next lead rest).2
termination_by bytes.length
decreasing_by
  have := length_next_le lead rest
  simp only [List.length_cons]
  omega

/-- The text that bytes spell. -/
def decode (bytes : List UInt8) : String := String.ofList (decodeChars bytes)

/-- The bytes of a text. -/
def encode (text : String) : List UInt8 := text.toList.flatMap String.utf8EncodeChar

end Utf8

namespace Field

/-- The text of a field: everything before its first NUL. -/
def text (bytes : List UInt8) : String := Utf8.decode (bytes.takeWhile (· != 0))

/-- A field of `width` bytes.  The last byte is always NUL, so text that is too long
loses its end, wherever a character may be cut. -/
def padded (width : Nat) (text : String) : List UInt8 :=
  let kept := (Utf8.encode text).take (width - 1)
  kept ++ List.replicate (width - kept.length) 0

/-- The pieces of a list of names.  A NUL ends the piece before it, and what follows
the last NUL is a piece only if there is something. -/
def pieces : List UInt8 → List (List UInt8)
  | [] => []
  | b :: bytes =>
    if b = 0 then [] :: pieces bytes
    else match pieces bytes with
      | [] => [[b]]
      | piece :: others => (b :: piece) :: others

/-- A list of names, each ended by a NUL. -/
def listed (names : List String) : List UInt8 :=
  names.flatMap fun name => Utf8.encode name ++ [0]

@[simp] theorem length_padded (width : Nat) (text : String) (h : 0 < width) :
    (padded width text).length = width := by
  simp only [padded, List.length_append, List.length_take, List.length_replicate]
  omega

end Field
end Correlator
