import Correlator.Bytes.LittleEndian

/-!
# Values with a fixed-width form

A `Stored` type says how one of its values lies in a file.  The laws are fields of
the class, so a record made of stored parts is stored again and brings its round
trip with it: `Stored.pair` puts two side by side and `Stored.of` renames a form.
-/

namespace Correlator

/-- Values that occupy `width` bytes of a file.  Decoding looks at the first
`width` bytes only, so that a field can be decoded in place. -/
class Stored (α : Type) where
  width : Nat
  encode : α → List UInt8
  decode : List UInt8 → α
  length_encode : ∀ a, (encode a).length = width
  decode_encode : ∀ a rest, decode (encode a ++ rest) = a
  encode_decode : ∀ bytes, width ≤ bytes.length → encode (decode bytes) = bytes.take width

namespace Stored

attribute [simp] length_encode decode_encode

/-- The value stored at `offset`. -/
def field (α : Type) [Stored α] (bytes : List UInt8) (offset : Nat) : α :=
  decode (bytes.drop offset)

theorem decode_encode_self {α : Type} [Stored α] (a : α) : decode (encode a) = a := by
  simpa using decode_encode a []

/-- Only the bytes of a value count when it is decoded. -/
theorem decode_take {α : Type} [Stored α] {bytes : List UInt8}
    (h : width α ≤ bytes.length) : (decode (bytes.take (width α)) : α) = decode bytes := by
  rw [← encode_decode bytes h, decode_encode_self]

/- A field of a record that was written part by part is found by skipping the parts
before it. -/

theorem field_zero {α : Type} [Stored α] (a : α) (rest : List UInt8) :
    field α (encode a ++ rest) 0 = a := by
  rw [field, List.drop_zero, decode_encode]

theorem field_skip {α : Type} [Stored α] {before rest : List UInt8} {width offset : Nat}
    (h : before.length = width) (hle : width ≤ offset) :
    field α (before ++ rest) offset = field α rest (offset - width) := by
  rw [field, field, List.drop_append, List.drop_of_length_le (by omega), List.nil_append, h]

/-- The same bytes under another name: a form carried along a bijection. -/
@[reducible] def of {α β : Type} [Stored α] (wrap : α → β) (unwrap : β → α)
    (wrap_unwrap : ∀ b, wrap (unwrap b) = b) (unwrap_wrap : ∀ a, unwrap (wrap a) = a) :
    Stored β where
  width := width α
  encode b := encode (unwrap b)
  decode bytes := wrap (decode bytes)
  length_encode b := length_encode _
  decode_encode b rest := by rw [decode_encode, wrap_unwrap]
  encode_decode bytes h := by rw [unwrap_wrap, encode_decode bytes h]

/-- A number below `256 ^ bytes` in little-endian form. -/
@[reducible] def number {α : Type} (bytes : Nat) (toNat : α → Nat) (ofNat : Nat → α)
    (ofNat_toNat : ∀ a, ofNat (toNat a) = a) (toNat_lt : ∀ a, toNat a < 256 ^ bytes)
    (toNat_ofNat : ∀ n, n < 256 ^ bytes → toNat (ofNat n) = n) : Stored α where
  width := bytes
  encode a := LittleEndian.encode bytes (toNat a)
  decode bs := ofNat (LittleEndian.decode (bs.take bytes))
  length_encode a := LittleEndian.length_encode _ _
  decode_encode a rest := by
    rw [List.take_append_of_le_length (by simp), List.take_of_length_le (by simp),
      LittleEndian.decode_encode, Nat.mod_eq_of_lt (toNat_lt a), ofNat_toNat]
  encode_decode bs h := by
    have hlen : (bs.take bytes).length = bytes := by simp [h]
    have hlt := LittleEndian.decode_lt (bs.take bytes)
    rw [hlen] at hlt
    rw [toNat_ofNat _ hlt]
    have := LittleEndian.encode_decode (bs.take bytes)
    rwa [hlen] at this

instance : Stored UInt8 :=
  number 1 UInt8.toNat UInt8.ofNat (fun _ => UInt8.ofNat_toNat) (fun a => a.toNat_lt)
    (fun n h => by simpa using Nat.mod_eq_of_lt h)

instance : Stored UInt16 :=
  number 2 UInt16.toNat UInt16.ofNat (fun _ => UInt16.ofNat_toNat) (fun a => a.toNat_lt)
    (fun n h => by simpa using Nat.mod_eq_of_lt h)

instance : Stored UInt32 :=
  number 4 UInt32.toNat UInt32.ofNat (fun _ => UInt32.ofNat_toNat) (fun a => a.toNat_lt)
    (fun n h => by simpa using Nat.mod_eq_of_lt h)

instance : Stored UInt64 :=
  number 8 UInt64.toNat UInt64.ofNat (fun _ => UInt64.ofNat_toNat) (fun a => a.toNat_lt)
    (fun n h => by simpa using Nat.mod_eq_of_lt h)

/- Signed numbers are two's complement, so they share the bytes of the unsigned
number with the same bits. -/

instance : Stored Int8 := of Int8.ofUInt8 Int8.toUInt8 (fun _ => rfl) (fun _ => rfl)

instance : Stored Int16 := of Int16.ofUInt16 Int16.toUInt16 (fun _ => rfl) (fun _ => rfl)

instance : Stored Int32 := of Int32.ofUInt32 Int32.toUInt32 (fun _ => rfl) (fun _ => rfl)

/-- Two values side by side. -/
instance pair {α β : Type} [Stored α] [Stored β] : Stored (α × β) where
  width := width α + width β
  encode p := encode p.1 ++ encode p.2
  decode bytes := (decode bytes, decode (bytes.drop (width α)))
  length_encode p := by simp
  decode_encode p rest := by
    have h : (encode p.1 ++ encode p.2 ++ rest).drop (width α) = encode p.2 ++ rest := by
      rw [List.append_assoc, List.drop_append_of_le_length (by simp),
        List.drop_of_length_le (by simp), List.nil_append]
    rw [h, decode_encode, List.append_assoc, decode_encode]
  encode_decode bytes h := by
    simp only
    rw [encode_decode bytes (by omega), encode_decode (bytes.drop (width α)) (by simp; omega),
      ← List.take_add]

end Stored
end Correlator
