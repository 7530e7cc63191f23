import Correlator.Proofs.Transcript.Widths

/-!
# Runs that are written back

A run that was read is written back byte for byte, whatever the bytes were: every number keeps
its bits, the counts are the lengths of the lists that were read, and each byte of a packed
field is one value.  The exception is the last byte of a visibility's header, of which nothing
is kept, and where a zero is written.
-/

namespace Correlator

namespace Stored

variable {α : Type} [Stored α]

theorem encode_decode_self {bytes : List UInt8} (h : bytes.length = width α) :
    encode (decode bytes : α) = bytes := by
  rw [encode_decode bytes (Nat.le_of_eq h.symm), ← h, List.take_length]

theorem length_flatMap_encode (as : List α) : (as.flatMap encode).length = width α * as.length := by
  rw [List.length_flatMap, List.map_congr_left fun a _ => length_encode a, List.map_const',
    List.sum_replicate_nat, Nat.mul_comm]

end Stored

namespace Parser

variable {α : Type} {p : Parser α} {encode : α → List UInt8} {change : List UInt8 → List UInt8}
  {width : Nat}

theorem taken_of_exactly {piece : Piece} {bytes taken rest : List UInt8}
    (h : exactly piece width bytes = .ok (taken, rest)) :
    bytes = taken ++ rest ∧ taken.length = width := by
  unfold exactly at h
  split at h
  · cases h
  · simp only [Except.ok.injEq, Prod.mk.injEq] at h
    rw [← h.1, ← h.2, List.take_append_drop, List.length_take]
    exact ⟨rfl, by omega⟩

/-- What `p` takes off is `width` bytes wide, and is what its value is written as once it is
changed. -/
def Restores (p : Parser α) (encode : α → List UInt8) (change : List UInt8 → List UInt8)
    (width : Nat) : Prop :=
  ∀ (bytes : List UInt8) (a : α) (rest : List UInt8), p bytes = .ok (a, rest) →
    ∃ taken, bytes = taken ++ rest ∧ taken.length = width ∧ encode a = change taken

theorem Restores.many (h : Restores p encode change width) {count : Nat}
    {bytes rest : List UInt8} {as : List α} (hmany : Parser.many p count bytes = .ok (as, rest)) :
    ∃ takens : List (List UInt8), bytes = takens.flatten ++ rest ∧
      (∀ taken ∈ takens, taken.length = width) ∧ as.map encode = takens.map change := by
  induction count generalizing bytes as with
  | zero =>
    obtain ⟨rfl, rfl⟩ := pure_eq_ok.mp hmany
    exact ⟨[], rfl, by simp, rfl⟩
  | succ count ih =>
    obtain ⟨a, middle, hp, hmany⟩ := bind_eq_ok.mp hmany
    rw [map_eq_pure_bind] at hmany
    obtain ⟨others, last, hothers, hpure⟩ := bind_eq_ok.mp hmany
    obtain ⟨rfl, rfl⟩ := pure_eq_ok.mp hpure
    obtain ⟨taken, rfl, hlength, hencode⟩ := h bytes a middle hp
    obtain ⟨takens, rfl, hlengths, hencodes⟩ := ih hothers
    refine ⟨taken :: takens, by rw [List.flatten_cons, List.append_assoc], ?_, ?_⟩
    · exact List.forall_mem_cons.mpr ⟨hlength, hlengths⟩
    · rw [List.map_cons, List.map_cons, hencode, hencodes]

/-- Records that are written as they were, one after another. -/
theorem Restores.flatMap (h : Restores p encode id width) {count : Nat}
    {bytes rest : List UInt8} {as : List α} (hmany : Parser.many p count bytes = .ok (as, rest)) :
    bytes = as.flatMap encode ++ rest := by
  obtain ⟨takens, hbytes, -, hencodes⟩ := h.many hmany
  rwa [List.flatMap_def, hencodes, List.map_id]

end Parser

theorem Uvw.restores : Uvw.parser.Restores Stored.encode id (Stored.width Uvw) := by
  intro bytes r rest h
  unfold parser at h
  rw [map_eq_pure_bind] at h
  obtain ⟨taken, middle, htaken, h⟩ := Parser.bind_eq_ok.mp h
  obtain ⟨rfl, rfl⟩ := Parser.pure_eq_ok.mp h
  obtain ⟨rfl, hlength⟩ := Parser.taken_of_exactly htaken
  refine ⟨taken, rfl, hlength, ?_⟩
  exact Stored.encode_decode_self hlength

namespace Occupancy

theorem eq_of_check {r r' : Occupancy} (h : check r = .ok r') : r' = r := by
  unfold check at h
  split at h
  · cases h
  · exact (Except.ok.inj h).symm

theorem restores : parser.Restores Stored.encode id (Stored.width Occupancy) := by
  intro bytes r rest h
  obtain ⟨taken, middle, htaken, h⟩ := Parser.bind_eq_ok.mp h
  obtain ⟨hcheck, rfl⟩ := Parser.ofExcept_eq_ok.mp h
  obtain ⟨rfl, hlength⟩ := Parser.taken_of_exactly htaken
  refine ⟨taken, rfl, hlength, ?_⟩
  rw [eq_of_check hcheck]
  exact Stored.encode_decode_self hlength

end Occupancy

theorem Spectrum.encode_decode {count : Nat} {bytes : List UInt8}
    (h : bytes.length = count * Stored.width Sample) : encode (decode count bytes) = bytes := by
  induction count generalizing bytes with
  | zero =>
    rw [Nat.zero_mul] at h
    rw [List.eq_nil_of_length_eq_zero h]
    rfl
  | succ count ih =>
    rw [Nat.succ_mul] at h
    have hrest : (bytes.drop (Stored.width Sample)).length = count * Stored.width Sample := by
      rw [List.length_drop]
      omega
    show Stored.encode (Stored.decode bytes : Sample) ++ encode (decode count _) = bytes
    rw [ih hrest, Stored.encode_decode bytes (by omega), List.take_append_drop]

/-- The padding is the last of the eight bytes. -/
theorem VisibilityHeader.encode_unpadded (h : VisibilityHeader) :
    Stored.encode { h with padding := 0 } = (Stored.encode h).set 7 0 := by
  have hsplit : ∀ padding : UInt8, Stored.encode { h with padding := padding } =
      Stored.encode (h.weight, h.pair.first, h.pair.second, h.channel) ++
        Stored.encode padding := by
    intro padding
    show Stored.encode h.weight ++ (_ ++ (_ ++ (_ ++ _))) = (_ ++ (_ ++ (_ ++ _))) ++ _
    simp only [List.append_assoc]
  have hfront : (Stored.encode (h.weight, h.pair.first, h.pair.second, h.channel)).length = 7 :=
    Stored.length_encode _
  obtain ⟨padding, hpadding⟩ : ∃ padding, Stored.encode h.padding = [padding] :=
    List.length_eq_one_iff.mp (Stored.length_encode h.padding)
  rw [hsplit 0, show Stored.encode h = _ from hsplit h.padding, hpadding, List.set_append,
    if_neg (by omega), hfront]
  rfl

theorem Visibility.restores (channels : Nat) :
    (parser channels).Restores encode (·.set 7 0) (8 + 8 * (channels + 1)) := by
  intro bytes v rest h
  obtain ⟨header, middle, hheader, h⟩ := Parser.bind_eq_ok.mp h
  obtain ⟨payload, last, hpayload, h⟩ := Parser.bind_eq_ok.mp h
  obtain ⟨rfl, rfl⟩ := Parser.pure_eq_ok.mp h
  obtain ⟨rfl, hheaderWidth⟩ := Parser.taken_of_exactly hheader
  obtain ⟨rfl, hpayloadWidth⟩ := Parser.taken_of_exactly hpayload
  have hunpadded := VisibilityHeader.encode_unpadded (Stored.decode header)
  rw [Stored.encode_decode_self hheaderWidth] at hunpadded
  rw [VisibilityHeader.width_eq] at hheaderWidth
  refine ⟨header ++ payload, by rw [List.append_assoc], ?_, ?_⟩
  · rw [List.length_append, hheaderWidth, hpayloadWidth, payloadWidth, Sample.width_eq]
    omega
  · show _ = (header ++ payload).set 7 0
    rw [List.set_append, if_pos (by omega), ← hunpadded]
    exact congrArg (_ ++ ·) (Spectrum.encode_decode hpayloadWidth)

/-- Read as many values as a header counts. -/
def Reading.many {α : Type} (step : Reading α) : Nat → Reading (List α)
  | 0 => pure []
  | count + 1 => do
    let a ← step
    (a :: ·) <$> many step count

theorem Reading.follows_many {α : Type} {step : Reading α} {p : Parser α} (h : Follows step p)
    (count : Nat) : Follows (many step count) (Parser.many p count) := by
  induction count with
  | zero => exact follows_pure []
  | succ count ih => exact follows_bind h fun a => follows_map (a :: ·) ih

namespace RunHeader

def parser : Parser RunHeader := do
  let bytes ← Parser.exactly .runHeader (Stored.width RunCounts)
  Parser.ofExcept (ofBytes bytes)

theorem parser_follows : Reading.Follows read parser :=
  Reading.follows_bind (Reading.follows_exactly _ _) fun _ => Reading.follows_ofExcept _

/-- The counts are the stored ones again. -/
theorem ofNat_of_count {slice : Int32} {kind : RecordKind} {n : Int32} {count : Nat}
    (h : RunHeader.count slice kind n = .ok count) : Int32.ofNat count = n := by
  unfold RunHeader.count at h
  split at h
  · cases h
  · rename_i hsign
    have hpos : 0 ≤ n.toInt := by
      rwa [Int32.lt_iff_toInt_lt, Int32.toInt_zero, Int.not_lt] at hsign
    rw [← Except.ok.inj h, ← Int32.ofInt_eq_ofNat, Int.toNat_of_nonneg hpos, Int32.ofInt_toInt]

theorem counts_of_ofBytes {bytes : List UInt8} {h : RunHeader} (hbytes : ofBytes bytes = .ok h) :
    (⟨h.slice, Int32.ofNat h.visibilities, Int32.ofNat h.uvws, Int32.ofNat h.occupancies⟩ :
      RunCounts) = Stored.decode bytes := by
  unfold ofBytes ofCounts at hbytes
  generalize (Stored.decode bytes : RunCounts) = counts at hbytes ⊢
  cases hv : count counts.slice .visibility counts.visibilities with
  | error => simp [hv, bind, Except.bind] at hbytes
  | ok visibilities =>
  cases hu : count counts.slice .uvw counts.uvws with
  | error => simp [hv, hu, bind, Except.bind] at hbytes
  | ok uvws =>
  cases ho : count counts.slice .occupancy counts.occupancies with
  | error => simp [hv, hu, ho, bind, Except.bind] at hbytes
  | ok occupancies =>
  simp only [hv, hu, ho, bind, Except.bind, pure, Except.pure, Except.ok.injEq] at hbytes
  rw [← hbytes, ofNat_of_count hv, ofNat_of_count hu, ofNat_of_count ho]

end RunHeader

/-- What was taken off the bytes ahead is what the stream has gone past. -/
theorem Source.Reaches.taken {s s' : Source} {taken rest : List UInt8} (h : s.Reaches rest s')
    (hne : taken ≠ []) (hahead : s.ahead = taken ++ rest) :
    s'.pos = s.pos + taken.length ∧ s'.pos ≤ s.bytes.size ∧
      taken = s.bytes.toList.extract s.pos s'.pos := by
  have hwidth := List.length_pos_iff.mpr hne
  have hpos := h.pos
  have hlength := s.length_ahead
  have hlimit := s.limit_le_size
  rw [hahead, List.length_append] at hpos hlength
  refine ⟨by omega, by omega, ?_⟩
  have hcount : s'.pos - s.pos = taken.length := by omega
  calc taken = (taken ++ rest).take taken.length := List.take_left.symm
    _ = ((s.bytes.toList.take s.limit).drop s.pos).take taken.length := by
      rw [← hahead, Source.ahead]
    _ = (s.bytes.toList.drop s.pos).take taken.length := by
      rw [List.drop_take, List.take_take, Nat.min_eq_left (by omega)]
    _ = s.bytes.toList.extract s.pos s'.pos := by rw [List.extract_eq_take_drop, hcount]

namespace Run

/-- Read a run: its header, and the records that it counts. -/
def read (channels : Nat) : Reading Run := do
  let header ← RunHeader.read
  let uvws ← Reading.many Uvw.read header.uvws
  let occupancies ← Reading.many Occupancy.read header.occupancies
  let visibilities ← Reading.many (Visibility.read channels) header.visibilities
  return ⟨header.slice, uvws, occupancies, visibilities⟩

theorem read_follows (channels : Nat) :
    Reading.Follows (read channels) (RunHeader.parser >>= parser channels) :=
  Reading.follows_bind RunHeader.parser_follows fun _ =>
    Reading.follows_bind (Reading.follows_many Uvw.parser_follows _) fun _ =>
      Reading.follows_bind (Reading.follows_many Occupancy.parser_follows _) fun _ =>
        Reading.follows_bind (Reading.follows_many (Visibility.parser_follows channels) _)
          fun _ => Reading.follows_pure _

/-- Where in a run the visibilities begin. -/
def visibilitiesStart (r : Run) : Nat := 16 + 32 * r.uvws.length + 24 * r.occupancies.length

/-- Where in a run a byte is not used: it is the last of the eight bytes with which each
visibility begins. -/
def Padding (channels : Nat) (r : Run) (index : Nat) : Prop :=
  r.visibilitiesStart ≤ index ∧
    (index - r.visibilitiesStart) % (8 + 8 * (channels + 1)) = 7

instance (channels : Nat) (r : Run) : DecidablePred (Padding channels r) :=
  fun _ => inferInstanceAs (Decidable (_ ∧ _))

variable {channels : Nat}

theorem mapIdx_eq_set {width : Nat} {chunk : List UInt8} (h : chunk.length = width) :
    (chunk.mapIdx fun index byte => if index % width = 7 then 0 else byte) = chunk.set 7 0 := by
  refine List.ext_getElem (by simp) fun index hindex hindex' => ?_
  rw [List.length_set] at hindex'
  rw [List.getElem_mapIdx, List.getElem_set, Nat.mod_eq_of_lt (h ▸ hindex')]
  simp only [eq_comm]

theorem flatten_unpadded {width : Nat} {chunks : List (List UInt8)}
    (h : ∀ chunk ∈ chunks, chunk.length = width) :
    (chunks.flatten.mapIdx fun index byte => if index % width = 7 then 0 else byte) =
      (chunks.map (·.set 7 0)).flatten := by
  induction chunks with
  | nil => rfl
  | cons chunk chunks ih =>
    obtain ⟨hchunk, hchunks⟩ := List.forall_mem_cons.mp h
    rw [List.map_cons, List.flatten_cons, List.flatten_cons, List.mapIdx_append,
      mapIdx_eq_set hchunk, hchunk]
    simp only [Nat.add_mod_right]
    rw [ih hchunks]

theorem padding_behind_iff {r : Run} {index : Nat} :
    r.Padding channels (index + r.visibilitiesStart) ↔
      index % (8 + 8 * (channels + 1)) = 7 := by
  unfold Padding
  rw [Nat.add_sub_cancel]
  exact and_iff_right (Nat.le_add_left _ _)

/-- What is taken off the front is what is written, with zeros where it is not used. -/
theorem encode_of_parse {bytes rest : List UInt8} {run : Run}
    (hparse : (RunHeader.parser >>= parser channels) bytes = .ok (run, rest)) :
    ∃ taken, bytes = taken ++ rest ∧
      run.encode = taken.mapIdx fun index byte =>
        if run.Padding channels index then 0 else byte := by
  obtain ⟨header, behind, hheader, hrun⟩ := Parser.bind_eq_ok.mp hparse
  obtain ⟨counts, middle, hcounts, hheader⟩ := Parser.bind_eq_ok.mp hheader
  obtain ⟨hofBytes, hmiddle⟩ := Parser.ofExcept_eq_ok.mp hheader
  obtain ⟨hbytes, hlength⟩ := Parser.taken_of_exactly hcounts
  have hstored : Stored.encode run.counts = counts := by
    rw [← Stored.encode_decode_self hlength, ← RunHeader.counts_of_ofBytes hofBytes,
      ← header_of_parse hrun]
    rfl
  obtain ⟨uvws, rest₁, huvws, hrun⟩ := Parser.bind_eq_ok.mp hrun
  obtain ⟨occupancies, rest₂, hoccupancies, hrun⟩ := Parser.bind_eq_ok.mp hrun
  obtain ⟨visibilities, rest₃, hvisibilities, hrun⟩ := Parser.bind_eq_ok.mp hrun
  obtain ⟨rfl, rfl⟩ := Parser.pure_eq_ok.mp hrun
  obtain ⟨chunks, hchunks, hwidths, hencodes⟩ := (Visibility.restores channels).many hvisibilities
  obtain ⟨front, hfront⟩ : ∃ front, front = counts ++ uvws.flatMap Stored.encode
    ++ occupancies.flatMap Stored.encode := ⟨_, rfl⟩
  have hwidth : front.length =
      visibilitiesStart ⟨header.slice, uvws, occupancies, visibilities⟩ := by
    rw [hfront, List.length_append, List.length_append, hlength, Stored.length_flatMap_encode,
      Stored.length_flatMap_encode]
    rfl
  have hbehind : behind = uvws.flatMap Stored.encode ++ (occupancies.flatMap Stored.encode
      ++ (chunks.flatten ++ rest₃)) := by
    rw [Uvw.restores.flatMap huvws, Occupancy.restores.flatMap hoccupancies, hchunks]
  refine ⟨front ++ chunks.flatten, ?_, ?_⟩
  · rw [hbytes, hmiddle, hbehind, hfront]
    simp only [List.append_assoc]
  · -- In front of the visibilities every byte is used.
    have hunused : (front.mapIdx fun index byte =>
        if (Run.mk header.slice uvws occupancies visibilities).Padding channels index then 0
        else byte) = front := by
      refine List.ext_getElem List.length_mapIdx fun index _ hindex => ?_
      rw [List.getElem_mapIdx, if_neg fun hpadding => ?_]
      exact Nat.not_lt.mpr hpadding.1 (hwidth ▸ hindex)
    rw [List.mapIdx_append, hunused, hwidth]
    simp only [padding_behind_iff]
    rw [flatten_unpadded hwidths, ← hencodes, ← List.flatMap_def, encode, hstored, hfront]

theorem encode_of_read {s s' : Source} {run : Run} (h : read channels s = .ok run s') :
    s'.pos = s.pos + run.encode.length ∧ s'.pos ≤ s.bytes.size ∧
      run.encode = (s.bytes.toList.extract s.pos s'.pos).mapIdx fun index byte =>
        if run.Padding channels index then 0 else byte := by
  obtain ⟨rest, hparse, hreach⟩ := (read_follows channels).parse_of_ok h
  obtain ⟨taken, hahead, hencode⟩ := encode_of_parse hparse
  have hlength : run.encode.length = taken.length := by rw [hencode, List.length_mapIdx]
  have hwidth : 0 < run.encode.length := by
    rw [length_encode, RunCounts.width_eq]
    omega
  obtain ⟨hpos, hsize, htaken⟩ := hreach.taken (List.length_pos_iff.mp (hlength ▸ hwidth)) hahead
  refine ⟨by rw [hpos, hlength], hsize, ?_⟩
  rw [← htaken]
  exact hencode

/-- Where a byte is used it can be looked up in what was written. -/
theorem used_of_encode {s : Source} {run : Run} {stop index : Nat}
    (hstop : stop = s.pos + run.encode.length)
    (hencode : run.encode = (s.bytes.toList.extract s.pos stop).mapIdx fun index byte =>
      if run.Padding channels index then 0 else byte)
    (hindex : index < run.encode.length) (hused : ¬ run.Padding channels index) :
    run.encode[index]? = s.bytes[s.pos + index]? := by
  rw [hencode, List.getElem?_mapIdx, List.extract_eq_take_drop, List.getElem?_take,
    if_pos (by omega), List.getElem?_drop, Array.getElem?_toList]
  simp only [if_neg hused, Option.map_id']

/-- What was read is written back, but for zeros where a byte is not used.  So whatever else
reads as the same run has the same bytes, but for those. -/
theorem written_back {s s' : Source} {run : Run} (h : read channels s = .ok run s') :
    s'.pos = s.pos + run.encode.length ∧ s'.pos ≤ s.bytes.size ∧
      run.encode = (s.bytes.toList.extract s.pos s'.pos).mapIdx (fun index byte =>
        if run.Padding channels index then 0 else byte) ∧
      ∀ t t', read channels t = .ok run t' →
        t'.pos - t.pos = s'.pos - s.pos ∧
          ∀ index < run.encode.length, ¬ run.Padding channels index →
            t.bytes[t.pos + index]? = s.bytes[s.pos + index]? := by
  obtain ⟨hpos, hsize, hencode⟩ := encode_of_read h
  refine ⟨hpos, hsize, hencode, fun t t' ht => ?_⟩
  obtain ⟨hpos', -, hencode'⟩ := encode_of_read ht
  refine ⟨by omega, fun index hindex hused => ?_⟩
  have hs := used_of_encode hpos hencode hindex hused
  have ht := used_of_encode hpos' hencode' hindex hused
  exact ht.symm.trans hs

/-- One visibility of a single channel, with a padding byte that is not zero. -/
theorem written_back_padded :
    let padded : List UInt8 := [7, 0, 0, 0, 1, 0, 0, 0, 0, 0, 0, 0, 0, 0, 0, 0,
      250, 255, 255, 255, 1, 2, 13, 9,
      0, 0, 128, 63, 0, 0, 192, 191, 0, 0, 0, 128, 1, 0, 0, 0]
    ∃ run s', read 1 (.ofBytes padded) = .ok run s' ∧ run.encode = padded.set 23 0 := by
  intro padded
  let run : Run := ⟨7, [], [], [⟨-6, ⟨1, 2⟩, ⟨1, 1, 1⟩,
    [⟨⟨0x3F800000⟩, ⟨0xBFC00000⟩⟩, ⟨⟨0x80000000⟩, ⟨1⟩⟩]⟩]⟩
  have hparse : (RunHeader.parser >>= parser 1) (Source.ofBytes padded).ahead = .ok (run, []) := by
    have hfound : ((RunHeader.parser >>= parser 1) (Source.ofBytes padded).ahead).toOption =
        some (run, []) := by
      decide +kernel
    generalize (RunHeader.parser >>= parser 1) _ = outcome at hfound ⊢
    cases outcome with
    | error => cases hfound
    | ok found => rw [Option.some.inj hfound]
  obtain ⟨s', hread, -⟩ := (read_follows 1).ok hparse
  obtain ⟨hpos, -, hencode, -⟩ := written_back hread
  refine ⟨run, s', hread, ?_⟩
  rw [hencode, hpos]
  decide

end Run

end Correlator
