import Correlator.Recording
import Correlator.Proofs.Header.Bounds
import Correlator.Proofs.Header.Failures

/-!
# Headers from streams and from bytes

Reading a header from a stream goes over its first bytes twice, and takes no more of the rest
than the header declares.  It gives what reading the bytes in place gives, and it says in the
same way what is wrong: `read_eq_ofBytes`.
-/

namespace Correlator

namespace Source

/-- `s` stands at the start of `bytes` and can go back there, and no read of the first `count`
bytes fails.  How they are delivered is left open. -/
structure Offers (s : Source) (bytes : List UInt8) (count : Nat) : Prop where
  bytes : s.bytes.toList = bytes
  pos : s.pos = 0
  seekFault : s.seekFault = none
  readFault : ∀ fault, s.readFault = some fault → count ≤ fault.position

theorem Serves.offers {s : Source} {bytes : List UInt8} (h : s.Serves bytes) (count : Nat) :
    s.Offers bytes count where
  bytes := h.bytes
  pos := h.pos
  seekFault := h.seekFault
  readFault := by
    intro fault hfault
    rw [h.readFault] at hfault
    cases hfault

variable {s : Source} {bytes : List UInt8} {count wanted : Nat}

theorem Offers.ahead (h : s.Offers bytes count) : s.ahead = bytes.take s.limit := by
  rw [Source.ahead, h.bytes, h.pos, List.drop_zero]

/-- Up to `count` bytes the failures of the stream do not show. -/
theorem Offers.min_limit (h : s.Offers bytes count) (hwanted : wanted ≤ count) :
    min wanted s.limit = min wanted bytes.length := by
  have hlength : s.bytes.size = bytes.length := by rw [← h.bytes, Array.length_toList]
  unfold limit
  cases hfault : s.readFault with
  | none => rw [hlength]
  | some fault =>
    have hpos := h.readFault fault hfault
    dsimp only
    omega

theorem Offers.supply (h : s.Offers bytes count) (hwanted : wanted ≤ count) :
    s.supply wanted = .ok (bytes.take wanted) := by
  have hmin := h.min_limit hwanted
  have hsize := s.limit_le_size
  have hlength : s.bytes.size = bytes.length := by rw [← h.bytes, Array.length_toList]
  have hahead : s.ahead.length = s.limit := by rw [s.length_ahead, h.pos, Nat.sub_zero]
  unfold Source.supply
  by_cases hle : wanted ≤ s.limit
  · rw [if_pos (by omega), h.ahead, List.take_take, hmin, ← List.take_eq_take_min]
  -- Fewer bytes are there than are wanted, so the stream ends before it can fail.
  have hall : s.limit = bytes.length := by omega
  have hbehind : s.obstacleBehind? = none := by
    unfold obstacleBehind? obstacle?
    cases hfault : s.readFault with
    | none => rfl
    | some fault =>
      have hpos := h.readFault fault hfault
      exact if_neg (show ¬ fault.position ≤ s.pos + s.ahead.length by rw [h.pos]; omega)
  rw [if_neg (by omega), hbehind, h.ahead, List.take_of_length_le (by omega),
    List.take_of_length_le (by omega)]

theorem Offers.pos_of_reaches (h : s.Offers bytes count) (hwanted : wanted ≤ count) {s' : Source}
    (hreach : s.Reaches (s.ahead.drop wanted) s') : s'.pos = min wanted bytes.length := by
  have hpos := pos_of_reaches_drop hreach
  rwa [s.length_ahead, h.pos, Nat.zero_add, Nat.sub_zero, h.min_limit hwanted] at hpos

/-- A stream that was read from can go back and offer the same again. -/
theorem Offers.back (h : s.Offers bytes count) {s' : Source} {rest : List UInt8}
    (hreach : s.Reaches rest s') : Offers { s' with pos := 0 } bytes count where
  bytes := (congrArg Array.toList hreach.bytes).trans h.bytes
  pos := rfl
  seekFault := hreach.seekFault.trans h.seekFault
  readFault fault hfault := h.readFault fault (hreach.readFault.symm.trans hfault)

theorem Offers.upTo (h : s.Offers bytes count) (hwanted : wanted ≤ count) :
    ∃ s', Reading.upTo wanted s = .ok (bytes.take wanted) s' ∧
      s.Reaches (s.ahead.drop wanted) s' := by
  obtain ⟨s', hfill, hreach⟩ := s.fill_eq wanted
  rw [h.supply hwanted] at hfill
  exact ⟨s', by rw [Reading.upTo, hfill], hreach⟩

end Source

namespace Header

variable {s : Source} {bytes : List UInt8}

theorem ofBytes_take {size : Nat} (hsize : checkSize (Stored.field Int32 bytes 0) = .ok size)
    (h : size ≤ bytes.length) : ofBytes (bytes.take size) = ofBytes bytes := by
  have hlength := List.length_take_of_le h
  rw [← extent_of_checkSize hsize] at h hlength ⊢
  refine ofBytes_congr (fun i hi _ => ?_) h (Nat.le_of_eq hlength.symm)
  rw [List.getElem?_take, if_pos hi]

/-- The second time all of the header is read. -/
theorem readWhole_eq_ofBytes {size : Nat}
    (hsize : checkSize (Stored.field Int32 bytes 0) = .ok size) (hwidth : sizeWidth ≤ bytes.length)
    (hseek : s.seekFault = none) (h : Source.Offers { s with pos := 0 } bytes size) :
    ∃ s', readWhole size s = Reading.ofExcept (ofBytes bytes) s' ∧
      Source.Reaches { s with pos := 0 } ((Source.ahead { s with pos := 0 }).drop size) s' := by
  obtain ⟨s', hwhole, hreach⟩ := h.upTo (Nat.le_refl size)
  have hback : Reading.seek 0 s = .ok () { s with pos := 0 } := by
    simp only [Reading.seek, Source.seek, hseek]
  refine ⟨s', ?_, hreach⟩
  rw [readWhole, bind_of_ok hback, bind_of_ok hwhole]
  by_cases hle : size ≤ bytes.length
  · rw [if_neg (by rw [List.length_take]; omega), ofBytes_take hsize hle]
  · have hcut := Nat.lt_of_not_le hle
    rw [List.take_of_length_le (Nat.le_of_lt hcut), if_pos hcut, ofBytes_of_cut hwidth hsize hcut]
    rfl

/-- Reading from a stream that offers all that a header may take gives what reading in place
gives, and leaves the stream behind the bytes that were looked at. -/
theorem read_eq_ofBytes (h : s.Offers bytes (extent bytes)) :
    ∃ s', read s = Reading.ofExcept (ofBytes bytes) s' ∧
      s.Reaches (s.ahead.drop (extent bytes)) s' := by
  obtain ⟨s₁, hstart, hreach₁⟩ := h.upTo (sizeWidth_le_extent bytes)
  by_cases hwidth : sizeWidth ≤ bytes.length
  · have hlength := List.length_take_of_le hwidth
    rw [read_of_length hstart (Nat.le_of_eq hlength.symm), field_take (Nat.le_refl _) hwidth]
    cases hsize : checkSize (Stored.field Int32 bytes 0) with
    | error reason =>
      have hfour : extent bytes = sizeWidth := by rw [extent, hsize]
      rw [ofBytes_of_checkSize_error hwidth hsize, hfour]
      exact ⟨s₁, rfl, hreach₁⟩
    | ok size =>
      have hoffers := h.back hreach₁
      have hback := hreach₁.back
      rw [h.pos] at hback
      rw [extent_of_checkSize hsize] at hoffers ⊢
      obtain ⟨s₂, hwhole, hreach₂⟩ := readWhole_eq_ofBytes hsize hwidth
        (hreach₁.seekFault.trans h.seekFault) hoffers
      rw [hback.ahead] at hreach₂
      refine ⟨s₂, ?_, hback.trans hreach₂⟩
      rw [bind_of_ok (show Reading.ofExcept _ s₁ = .ok size s₁ from rfl), hwhole]
  · have hshort := Nat.lt_of_not_le hwidth
    have hahead : s.ahead.length ≤ sizeWidth := by
      rw [h.ahead, List.length_take]
      omega
    rw [List.take_of_length_le (Nat.le_of_lt hshort)] at hstart
    rw [List.drop_of_length_le hahead] at hreach₁
    rw [List.drop_of_length_le (Nat.le_trans hahead (sizeWidth_le_extent bytes))]
    refine ⟨s₁, ?_, hreach₁⟩
    rw [read, bind_of_ok hstart, if_pos hshort, ofBytes_of_short hshort]
    rfl

theorem size_eq_extent {header : Header} (h : ofBytes bytes = .ok header) :
    header.size = extent bytes ∧ header.size ≤ bytes.length := by
  obtain ⟨size, hsize, hwhole, hcontents⟩ := whole_of_ofBytes h
  obtain ⟨channels, polarisations, layout, -, -, -, rfl⟩ := contents_eq_ok_iff.mp hcontents
  exact ⟨(extent_of_checkSize hsize).symm, hwhole⟩

/-- A stream gives the header that its bytes hold, or says as they do what is wrong with it,
however it delivers the bytes and whatever happens behind those the header declares.  A header
is left with the stream at the first run; otherwise no byte has been read past the end of the
stream or past the declared length, or past the length field if it declares no header. -/
theorem read_agrees_with_bytes (h : s.Offers bytes (extent bytes)) :
    (∀ header, ofBytes bytes = .ok header → ∃ s', read s = .ok header s' ∧
      s'.pos = header.size ∧ s'.remaining = bytes.drop header.size) ∧
    (∀ reason, ofBytes bytes = .error reason → ∃ s', read s = .error reason s' ∧
      s'.pos ≤ min bytes.length (extent bytes)) := by
  obtain ⟨s', hread, hreach⟩ := read_eq_ofBytes h
  have hpos := h.pos_of_reaches (Nat.le_refl _) hreach
  refine ⟨fun header hheader => ?_, fun reason hreason => ?_⟩
  · obtain ⟨hsize, hwhole⟩ := size_eq_extent hheader
    rw [hheader] at hread
    have hend : s'.pos = header.size := by omega
    refine ⟨s', hread, hend, ?_⟩
    rw [Source.remaining, hreach.bytes, h.bytes, hend]
  · rw [hreason] at hread
    exact ⟨s', hread, by omega⟩

/-- A header that comes byte by byte, with interruptions, from a disk that fails right behind
it. -/
theorem read_agrees_byte_by_byte :
    let f : Fields := { experiment := "N24L1", channels := 4, job := some ⟨"trunk", 7, 1⟩ }
    let bytes := f.encode ++ [5, 0, 0]
    let s : Source := {
      bytes := bytes.toArray
      delivery := ⟨fun call => call % 3, fun _ _ => 1, fun _ _ _ => Nat.one_pos⟩
      readFault := some ⟨84, "disk"⟩ }
    s.Offers bytes (extent bytes) ∧ ∃ header s', ofBytes bytes = .ok header ∧
      read s = .ok header s' ∧ s'.pos = 84 ∧ s'.remaining = [5, 0, 0] := by
  intro f bytes s
  have hextent : extent bytes = 84 := by decide +kernel
  have hs : s.Offers bytes (extent bytes) := by
    refine ⟨rfl, rfl, rfl, ?_⟩
    rintro fault ⟨⟩
    exact Nat.le_of_eq hextent
  have hsome : (ofBytes bytes).toOption.isSome = true := by decide +kernel
  obtain ⟨header, hheader⟩ : ∃ header, ofBytes bytes = .ok header := by
    cases hbytes : ofBytes bytes with
    | ok header => exact ⟨header, rfl⟩
    | error reason =>
      rw [hbytes] at hsome
      cases hsome
  obtain ⟨s', hread, hpos, hremaining⟩ := (read_agrees_with_bytes hs).1 header hheader
  have hsize : header.size = 84 := (size_eq_extent hheader).1.trans hextent
  rw [hsize] at hpos hremaining
  exact ⟨hs, header, s', hheader, hread, hpos, hremaining.trans (by decide +kernel)⟩

end Header
end Correlator
