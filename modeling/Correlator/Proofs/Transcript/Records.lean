import Correlator.Proofs.Transcript.Spelling
import Correlator.Record.Run

/-!
# Records held in memory

A parser for each kind of record and for the records of a run.  Each comes with three
laws: reading from a stream follows it (`parser_follows`), it takes off the front what
was written (`spells`), and what it leaves is the end of what there was
(`parser_trims`).
-/

namespace Correlator

namespace Uvw

def parser : Parser Uvw := Stored.decode <$> Parser.exactly .uvw (Stored.width Uvw)

def pieces : Pieces := [(.uvw, Stored.width Uvw)]

theorem parser_follows : Reading.Follows read parser :=
  Reading.follows_map _ (Reading.follows_exactly _ _)

theorem parser_trims : parser.Trims := Parser.trims_map _ (Parser.trims_exactly _ _)

theorem spells (r : Uvw) : parser.Spells r (Stored.encode r) pieces := by
  have h := Parser.spells_map (Stored.decode : List UInt8 → Uvw)
    (Parser.spells_exactly .uvw (Stored.length_encode r))
  rwa [Stored.decode_encode_self] at h

end Uvw

namespace Occupancy

def parser : Parser Occupancy := do
  let bytes ← Parser.exactly .occupancy (Stored.width Occupancy)
  Parser.ofExcept (check (Stored.decode bytes))

def pieces : Pieces := [(.occupancy, Stored.width Occupancy)]

theorem parser_follows : Reading.Follows read parser :=
  Reading.follows_bind (Reading.follows_exactly _ _) fun _ => Reading.follows_ofExcept _

theorem parser_trims : parser.Trims :=
  Parser.trims_bind (Parser.trims_exactly _ _) fun _ => Parser.trims_ofExcept _

def Counted (r : Occupancy) : Prop := ∀ count ∈ r.levels.toList, 0 ≤ count

instance (r : Occupancy) : Decidable r.Counted :=
  inferInstanceAs (Decidable (∀ count ∈ r.levels.toList, 0 ≤ count))

theorem check_of_counted {r : Occupancy} (h : r.Counted) : check r = .ok r := by
  rw [check]
  split
  · rename_i count level hfind
    have hmem := List.fst_mem_of_mem_zipIdx (List.mem_of_find?_eq_some hfind)
    have hcount : 0 ≤ count := h count hmem
    have hnegative : count < 0 := by simpa using List.find?_some hfind
    exact absurd hnegative (Int32.not_lt.mpr hcount)
  · rfl

/-- Nothing else comes through the check. -/
theorem counted_of_check {r r' : Occupancy} (h : check r = .ok r') : r'.Counted := by
  unfold check at h
  split at h
  · cases h
  rename_i hfind
  rw [← Except.ok.inj h]
  intro count hcount
  rw [List.mem_iff_getElem?] at hcount
  obtain ⟨level, hlevel⟩ := hcount
  have hmem : (count, level) ∈ r.levels.toList.zipIdx :=
    List.mem_zipIdx_iff_getElem?.mpr hlevel
  have hsign := List.find?_eq_none.mp hfind _ hmem
  exact Int32.not_lt.mp (by simpa using hsign)

theorem spells {r : Occupancy} (h : r.Counted) :
    parser.Spells r (Stored.encode r) pieces := by
  have hcheck : check (Stored.decode (Stored.encode r)) = .ok r := by
    rw [Stored.decode_encode_self, check_of_counted h]
  have hspells := Parser.spells_bind
    (q := fun bytes => Parser.ofExcept (check (Stored.decode bytes)))
    (Parser.spells_exactly .occupancy (Stored.length_encode r)) (Parser.spells_ofExcept hcheck)
  rwa [List.append_nil] at hspells

end Occupancy

namespace Spectrum

theorem length_encode (samples : Spectrum) :
    (encode samples).length = samples.length * Stored.width Sample := by
  induction samples with
  | nil => rfl
  | cons s samples ih =>
    have hcons : encode (s :: samples) = Stored.encode s ++ encode samples := rfl
    rw [hcons, List.length_append, ih, Stored.length_encode, List.length_cons, Nat.succ_mul,
      Nat.add_comm]

theorem decode_encode (samples : Spectrum) : decode samples.length (encode samples) = samples := by
  induction samples with
  | nil => rfl
  | cons s samples ih =>
    have hcons : encode (s :: samples) = Stored.encode s ++ encode samples := rfl
    rw [hcons, List.length_cons, decode, Stored.decode_encode,
      List.drop_left' (Stored.length_encode s), ih]

end Spectrum

namespace Visibility

def parser (channels : Nat) : Parser Visibility := do
  let bytes ← Parser.exactly .visibilityHeader (Stored.width VisibilityHeader)
  let header : VisibilityHeader := Stored.decode bytes
  let payload ← Parser.exactly .visibilityPayload (payloadWidth channels)
  return ⟨header.weight, header.pair, header.channel, Spectrum.decode (channels + 1) payload⟩

def pieces (channels : Nat) : Pieces :=
  [(.visibilityHeader, Stored.width VisibilityHeader), (.visibilityPayload, payloadWidth channels)]

theorem parser_follows (channels : Nat) : Reading.Follows (read channels) (parser channels) :=
  Reading.follows_bind (Reading.follows_exactly _ _) fun _ =>
    Reading.follows_bind (Reading.follows_exactly _ _) fun _ => Reading.follows_pure _

theorem parser_trims (channels : Nat) : (parser channels).Trims :=
  Parser.trims_bind (Parser.trims_exactly _ _) fun _ =>
    Parser.trims_bind (Parser.trims_exactly _ _) fun _ => Parser.trims_pure _

theorem spells {channels : Nat} {v : Visibility} (h : v.spectrum.length = channels + 1) :
    (parser channels).Spells v v.encode (pieces channels) := by
  have hpayload : (Spectrum.encode v.spectrum).length = payloadWidth channels := by
    rw [Spectrum.length_encode, h, payloadWidth]
  have hvalue : (⟨v.header.weight, v.header.pair, v.header.channel,
      Spectrum.decode (channels + 1) (Spectrum.encode v.spectrum)⟩ : Visibility) = v := by
    rw [← h, Spectrum.decode_encode]
    rfl
  have hrest := Parser.spells_bind
    (q := fun payload => pure (⟨v.header.weight, v.header.pair, v.header.channel,
      Spectrum.decode (channels + 1) payload⟩ : Visibility))
    (Parser.spells_exactly .visibilityPayload hpayload) (Parser.spells_pure _)
  rw [hvalue, List.append_nil] at hrest
  have hheader : (Stored.decode (Stored.encode v.header) : VisibilityHeader) = v.header :=
    Stored.decode_encode_self _
  refine Parser.spells_bind (Parser.spells_exactly .visibilityHeader
    (Stored.length_encode v.header)) ?_
  dsimp only
  rw [hheader]
  exact hrest

/-- The samples that are read are as many as the header of the recording says. -/
theorem length_spectrum_of_parse {channels : Nat} {bytes rest : List UInt8} {v : Visibility}
    (h : parser channels bytes = .ok (v, rest)) : v.spectrum.length = channels + 1 := by
  obtain ⟨header, middle, -, h⟩ := Parser.bind_eq_ok.mp h
  obtain ⟨payload, last, -, h⟩ := Parser.bind_eq_ok.mp h
  obtain ⟨rfl, -⟩ := Parser.pure_eq_ok.mp h
  exact Spectrum.length_decode _ _

end Visibility

theorem Parser.forall_of_many {α : Type} {p : Parser α} {P : α → Prop}
    (hp : ∀ {bytes a rest}, p bytes = .ok (a, rest) → P a) {count : Nat}
    {bytes rest : List UInt8} {as : List α} (h : many p count bytes = .ok (as, rest)) :
    ∀ a ∈ as, P a := by
  induction count generalizing bytes as with
  | zero =>
    obtain ⟨rfl, -⟩ := pure_eq_ok.mp h
    simp
  | succ count ih =>
    obtain ⟨a, middle, ha, h⟩ := bind_eq_ok.mp h
    rw [map_eq_pure_bind] at h
    obtain ⟨others, last, hothers, h⟩ := bind_eq_ok.mp h
    obtain ⟨rfl, rfl⟩ := pure_eq_ok.mp h
    intro b hb
    rcases List.mem_cons.mp hb with rfl | hb
    · exact hp ha
    · exact ih hothers b hb

namespace RunCounts

/-- The counts in the order in which they are stored and checked. -/
def listed (c : RunCounts) : List (RecordKind × Int32) :=
  [(.visibility, c.visibilities), (.uvw, c.uvws), (.occupancy, c.occupancies)]

def negative? (c : RunCounts) : Option (RecordKind × Int32) := c.listed.find? fun p => p.2 < 0

/-- A header with a negative count is rejected for the first of them. -/
theorem ofCounts_eq (c : RunCounts) :
    RunHeader.ofCounts c =
      match c.negative? with
      | some (kind, count) => .error (.recordCount c.slice kind count)
      | none => .ok ⟨c.slice, c.visibilities.toInt.toNat, c.uvws.toInt.toNat,
          c.occupancies.toInt.toNat⟩ := by
  unfold RunHeader.ofCounts RunHeader.count negative? listed
  by_cases hv : c.visibilities < 0
  · simp [hv, bind, Except.bind]
  by_cases hu : c.uvws < 0
  · simp [hv, hu, bind, Except.bind]
  by_cases ho : c.occupancies < 0
  · simp [hv, hu, ho, bind, Except.bind]
  · simp [hv, hu, ho, bind, Except.bind, pure, Except.pure]

end RunCounts

theorem RunHeader.count_ofNat (slice : Int32) (kind : RecordKind) {n : Nat} (h : n < 2 ^ 31) :
    count slice kind (Int32.ofNat n) = .ok n := by
  have hvalue : (Int32.ofNat n).toInt = n := Int32.toInt_ofNat_of_lt h
  have hsign : ¬ Int32.ofNat n < 0 := by
    rw [Int32.lt_iff_toInt_lt, hvalue, Int32.toInt_zero]
    omega
  rw [count, if_neg hsign, hvalue, Int.toNat_natCast]

namespace Run

def parser (channels : Nat) (header : RunHeader) : Parser Run := do
  let uvws ← Parser.many Uvw.parser header.uvws
  let occupancies ← Parser.many Occupancy.parser header.occupancies
  let visibilities ← Parser.many (Visibility.parser channels) header.visibilities
  return ⟨header.slice, uvws, occupancies, visibilities⟩

theorem parser_trims (channels : Nat) (header : RunHeader) : (parser channels header).Trims :=
  Parser.trims_bind (Parser.trims_many Uvw.parser_trims _) fun _ =>
    Parser.trims_bind (Parser.trims_many Occupancy.parser_trims _) fun _ =>
      Parser.trims_bind (Parser.trims_many (Visibility.parser_trims channels) _) fun _ =>
        Parser.trims_pure _

/-- The run that is read is of the slice that its header names, and its spectra have
the right length. -/
theorem slice_samples_of_parse {channels : Nat} {header : RunHeader} {bytes rest : List UInt8}
    {run : Run} (hp : parser channels header bytes = .ok (run, rest)) :
    run.slice = header.slice ∧ ∀ v ∈ run.visibilities, v.spectrum.length = channels + 1 := by
  obtain ⟨uvws, rest₁, -, hp⟩ := Parser.bind_eq_ok.mp hp
  obtain ⟨occupancies, rest₂, -, hp⟩ := Parser.bind_eq_ok.mp hp
  obtain ⟨visibilities, rest₃, hvisibilities, hp⟩ := Parser.bind_eq_ok.mp hp
  obtain ⟨rfl, -⟩ := Parser.pure_eq_ok.mp hp
  exact ⟨rfl, Parser.forall_of_many Visibility.length_spectrum_of_parse hvisibilities⟩

def pieces (channels : Nat) (r : Run) : Pieces :=
  r.uvws.flatMap (fun _ => Uvw.pieces) ++ r.occupancies.flatMap (fun _ => Occupancy.pieces)
    ++ r.visibilities.flatMap (fun _ => Visibility.pieces channels)

def header (r : Run) : RunHeader :=
  ⟨r.slice, r.visibilities.length, r.uvws.length, r.occupancies.length⟩

def encodeRecords (r : Run) : List UInt8 :=
  r.uvws.flatMap Stored.encode ++ r.occupancies.flatMap Stored.encode
    ++ r.visibilities.flatMap Visibility.encode

theorem encode_eq (r : Run) : r.encode = Stored.encode r.counts ++ r.encodeRecords := by
  simp only [encode, encodeRecords, List.append_assoc]

/-- What a run must be so that it reads back: its counts fit into their fields, levels
were counted, and each spectrum has a sample for each channel and one more. -/
structure WellFormed (channels : Nat) (r : Run) : Prop where
  uvws : r.uvws.length < 2 ^ 31
  occupancies : r.occupancies.length < 2 ^ 31
  visibilities : r.visibilities.length < 2 ^ 31
  counted : ∀ o ∈ r.occupancies, o.Counted
  samples : ∀ v ∈ r.visibilities, v.spectrum.length = channels + 1

theorem spells_records {channels : Nat} {r : Run} (h : r.WellFormed channels) :
    (parser channels r.header).Spells r r.encodeRecords (r.pieces channels) := by
  have huvws := Parser.spells_many Stored.encode (fun _ => Uvw.pieces) r.uvws
    fun u _ => Uvw.spells u
  have hoccupancies := Parser.spells_many Stored.encode (fun _ => Occupancy.pieces) r.occupancies
    fun o ho => Occupancy.spells (h.counted o ho)
  have hvisibilities := Parser.spells_many Visibility.encode (fun _ => Visibility.pieces channels)
    r.visibilities fun v hv => Visibility.spells (h.samples v hv)
  have hspells : (parser channels r.header).Spells r
      (r.uvws.flatMap Stored.encode ++ (r.occupancies.flatMap Stored.encode
        ++ (r.visibilities.flatMap Visibility.encode ++ [])))
      (r.uvws.flatMap (fun _ => Uvw.pieces) ++ (r.occupancies.flatMap (fun _ => Occupancy.pieces)
        ++ (r.visibilities.flatMap (fun _ => Visibility.pieces channels) ++ []))) :=
    Parser.spells_bind huvws
      (Parser.spells_bind hoccupancies (Parser.spells_bind hvisibilities (Parser.spells_pure _)))
  rwa [List.append_nil, List.append_nil, ← List.append_assoc, ← List.append_assoc] at hspells

theorem length_encode (r : Run) :
    r.encode.length = Stored.width RunCounts + r.encodeRecords.length := by
  rw [encode_eq, List.length_append, Stored.length_encode]

theorem WellFormed.ofBytes_counts {channels : Nat} {r : Run} (h : r.WellFormed channels) :
    RunHeader.ofBytes (Stored.encode r.counts) = .ok r.header := by
  rw [RunHeader.ofBytes, Stored.decode_encode_self, RunHeader.ofCounts, counts,
    RunHeader.count_ofNat _ _ h.visibilities, RunHeader.count_ofNat _ _ h.uvws,
    RunHeader.count_ofNat _ _ h.occupancies]
  rfl

/-- A run that was written is read back, header and records, whatever follows it. -/
theorem WellFormed.encode_append {channels : Nat} {r : Run} (h : r.WellFormed channels)
    (rest : List UInt8) :
    Stored.width RunCounts ≤ (r.encode ++ rest).length ∧
      RunHeader.ofBytes ((r.encode ++ rest).take (Stored.width RunCounts)) = .ok r.header ∧
      parser channels r.header ((r.encode ++ rest).drop (Stored.width RunCounts))
        = .ok (r, rest) := by
  refine ⟨?_, ?_, ?_⟩
  · rw [List.length_append, length_encode]
    omega
  · rw [encode_eq, List.append_assoc, List.take_left' (Stored.length_encode _), h.ofBytes_counts]
  · rw [encode_eq, List.append_assoc, List.drop_left' (Stored.length_encode _),
      (spells_records h).parse]

end Run
end Correlator
