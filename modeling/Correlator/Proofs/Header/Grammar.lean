import Correlator.Recording
import Correlator.Proofs.Header.Bounds

/-!
# The format of a header

`violation?` states the rules of the format in the order in which they are looked at, each
on the bytes as they are stored.  The main statement is that reading a header fails with the
first rule that is broken and with nothing else.
-/

namespace Correlator

namespace Field

/-- How many names a block holds: each is ended by a NUL, or by the end of the block. -/
def namesPresent (block : List UInt8) : Nat :=
  block.count 0 + if block.getLast?.any (· ≠ 0) then 1 else 0

theorem namesPresent_zero_cons (block : List UInt8) :
    namesPresent (0 :: block) = namesPresent block + 1 := by
  cases block with
  | nil => rfl
  | cons b block =>
    rw [namesPresent, namesPresent, List.count_cons_self, List.getLast?_cons_cons]
    omega

theorem namesPresent_cons_cons {b : UInt8} (h : b ≠ 0) (c : UInt8) (block : List UInt8) :
    namesPresent (b :: c :: block) = namesPresent (c :: block) := by
  rw [namesPresent, namesPresent, List.count_cons_of_ne h, List.getLast?_cons_cons]

theorem pieces_eq_nil_iff {block : List UInt8} : pieces block = [] ↔ block = [] := by
  cases block with
  | nil => exact iff_of_true rfl rfl
  | cons b block =>
    refine iff_of_false (fun hpieces => ?_) (List.cons_ne_nil b block)
    rw [pieces] at hpieces
    split at hpieces
    · cases hpieces
    · split at hpieces <;> cases hpieces

theorem length_pieces (block : List UInt8) : (pieces block).length = namesPresent block := by
  induction block with
  | nil => rfl
  | cons b block ih =>
    by_cases hb : b = 0
    · rw [hb, namesPresent_zero_cons, ← ih, pieces, if_pos rfl, List.length_cons]
    -- A byte that ends no name belongs to the name behind it, if there is one.
    rw [pieces, if_neg hb]
    cases block with
    | nil => simp [pieces, namesPresent, hb]
    | cons c block =>
      rw [namesPresent_cons_cons hb, ← ih]
      cases hpieces : pieces (c :: block) with
      | nil => exact absurd (pieces_eq_nil_iff.mp hpieces) (List.cons_ne_nil c block)
      | cons piece others => rfl

end Field

namespace Header

variable {bytes : List UInt8} {size : Nat}

/-- The rules on the names, which only the longest layout has.  They are counted up to the
declared length. -/
def namesViolation? (bytes : List UInt8) (size : Int) : Option DecodeError :=
  let stations : Int32 := Stored.field Int32 bytes 84
  let sources : Int32 := Stored.field Int32 bytes 88
  let found := Field.namesPresent ((bytes.take size.toNat).drop 92)
  if 92 ≤ size ∧ (stations < 0 ∨ sources < 0) then some (.nameCount stations sources 0)
  else if 92 ≤ size ∧ found < stations.toInt + sources.toInt then
    some (.nameCount stations sources found)
  else none

/-- The rules on the fields, those on the names last. -/
def fieldViolation? (bytes : List UInt8) (size : Int) : Option DecodeError :=
  let channels : Int32 := Stored.field Int32 bytes 44
  let code : Int8 := Stored.field Int8 bytes 60
  if 2 ^ 20 < channels.toInt then some (.channelCount channels)
  else if code ∉ [0, 1, 2, 3] then some (.polarisation code)
  else namesViolation? bytes size

/-- The first rule that bytes break, if they break one: those on the length come before those
on the fields.  The numbers are taken as they stand in the bytes. -/
def violation? (bytes : List UInt8) : Option DecodeError :=
  let declared : Int32 := Stored.field Int32 bytes 0
  let size := declared.toInt
  if bytes.length < 4 then some (.headerCut 4 bytes.length)
  else if ¬ (size = 64 ∨ size = 84 ∨ 92 ≤ size) then some (.headerSize declared)
  else if bytes.length < size then some (.headerCut size.toNat bytes.length)
  else fieldViolation? bytes size

/-- The layout that belongs to a length. -/
inductive OfSize : Int → Layout → Prop
  | plain : OfSize 64 .plain
  | withJob (job : Job) : OfSize 84 (.withJob job)
  | withNames {size : Int} (job : Job) (names : Names) :
    92 ≤ size → OfSize size (.withNames job names)

theorem checkChannels_of_lt {declared : Int32} (h : 2 ^ 20 < declared.toInt) :
    checkChannels declared = .error (.channelCount declared) := by
  have hmax : maxChannels < declared.toInt.toNat := by
    rw [maxChannels]
    omega
  exact if_pos hmax

theorem checkChannels_of_le {declared : Int32} (h : ¬ 2 ^ 20 < declared.toInt) :
    checkChannels declared = .ok declared.toInt.toNat := by
  have hmax : ¬ maxChannels < declared.toInt.toNat := by
    rw [maxChannels]
    omega
  exact if_neg hmax

theorem ofCode_of_notMem {code : Int8} (h : code ∉ [0, 1, 2, 3]) :
    Polarisations.ofCode code = .error (.polarisation code) := by
  simp only [List.mem_cons, List.not_mem_nil, or_false, not_or] at h
  rw [Polarisations.ofCode, if_neg h.1, if_neg h.2.1, if_neg h.2.2.1, if_neg h.2.2.2]

theorem exists_ofCode_of_mem {code : Int8} (h : code ∈ [0, 1, 2, 3]) :
    ∃ polarisations, Polarisations.ofCode code = .ok polarisations := by
  simp only [List.mem_cons, List.not_mem_nil, or_false] at h
  rcases h with rfl | rfl | rfl | rfl <;> exact ⟨_, rfl⟩

theorem ofBlock_of_negative {block : List UInt8} {stations sources : Int32}
    (h : stations < 0 ∨ sources < 0) :
    Names.ofBlock block stations sources = .error (.nameCount stations sources 0) :=
  if_pos h

/- Counts that are not negative are compared with the names that are there. -/

theorem ofBlock_of_few {block : List UInt8} {stations sources : Int32}
    (h : ¬ (stations < 0 ∨ sources < 0))
    (hfew : Field.namesPresent block < stations.toInt + sources.toInt) :
    Names.ofBlock block stations sources
      = .error (.nameCount stations sources (Field.namesPresent block)) := by
  have hsigns := h
  simp only [Int32.lt_iff_toInt_lt, Int32.toInt_zero] at hsigns
  rw [← Field.length_pieces] at hfew ⊢
  rw [Names.ofBlock, if_neg h]
  exact if_pos (by omega)

theorem ofBlock_of_enough {block : List UInt8} {stations sources : Int32}
    (h : ¬ (stations < 0 ∨ sources < 0))
    (henough : ¬ Field.namesPresent block < stations.toInt + sources.toInt) :
    Names.ofBlock block stations sources
      = .ok ⟨((Field.pieces block).take stations.toInt.toNat).map Utf8.decode,
        (((Field.pieces block).drop stations.toInt.toNat).take sources.toInt.toNat).map
          Utf8.decode⟩ := by
  have hsigns := h
  simp only [Int32.lt_iff_toInt_lt, Int32.toInt_zero] at hsigns
  rw [← Field.length_pieces] at henough
  rw [Names.ofBlock, if_neg h]
  exact if_neg (by omega)

/-- The layout is the one that belongs to the length, or the rules on the names are broken. -/
theorem layoutOf_judged (bytes : List UInt8)
    (hlayout : size = plainSize ∨ size = jobSize ∨ namesSize ≤ size) :
    match layoutOf bytes size with
    | .error reason => namesViolation? bytes size = some reason
    | .ok layout => namesViolation? bytes size = none ∧ OfSize size layout := by
  rcases hlayout with rfl | rfl | hnames
  · rw [layoutOf_plainSize]
    exact ⟨rfl, .plain⟩
  · rw [layoutOf_jobSize]
    exact ⟨rfl, .withJob _⟩
  · have hsize : (92 : Int) ≤ size := Int.ofNat_le.mpr hnames
    rw [layoutOf_of_namesSize_le hnames]
    by_cases hsigns : (Stored.field Int32 bytes 84 : Int32) < 0 ∨
        (Stored.field Int32 bytes 88 : Int32) < 0
    · rw [ofBlock_of_negative hsigns]
      exact if_pos ⟨hsize, hsigns⟩
    by_cases hfew : Field.namesPresent ((bytes.take size).drop namesSize)
        < (Stored.field Int32 bytes 84 : Int32).toInt + (Stored.field Int32 bytes 88 : Int32).toInt
    · rw [ofBlock_of_few hsigns hfew]
      exact (if_neg (not_and.mpr fun _ => hsigns)).trans (if_pos ⟨hsize, hfew⟩)
    · rw [ofBlock_of_enough hsigns hfew]
      exact ⟨(if_neg (not_and.mpr fun _ => hsigns)).trans (if_neg (not_and.mpr fun _ => hfew)),
        .withNames _ _ hsize⟩

/-- What the format says of some bytes: a violation, or a header of the declared length with
the layout that belongs to it. -/
def Judged (bytes : List UInt8) (violation : Option DecodeError) :
    Except DecodeError Header → Prop
  | .error reason => violation = some reason
  | .ok header => violation = none ∧
      (header.size : Int) = (Stored.field Int32 bytes 0 : Int32).toInt ∧
      OfSize header.size header.layout

theorem judged_contents (hlayout : size = plainSize ∨ size = jobSize ∨ namesSize ≤ size)
    (hsize : (Stored.field Int32 bytes 0 : Int32).toInt = size) :
    Judged bytes (fieldViolation? bytes size) (contents bytes size) := by
  unfold fieldViolation? contents
  dsimp only
  by_cases hchannels : 2 ^ 20 < (Stored.field Int32 bytes 44 : Int32).toInt
  · rw [if_pos hchannels, checkChannels_of_lt hchannels]
    rfl
  rw [if_neg hchannels, checkChannels_of_le hchannels]
  by_cases hcode : (Stored.field Int8 bytes 60 : Int8) ∉ [0, 1, 2, 3]
  · rw [if_pos hcode, ofCode_of_notMem hcode]
    rfl
  obtain ⟨polarisations, hpolarisations⟩ := exists_ofCode_of_mem (Decidable.not_not.mp hcode)
  rw [if_neg hcode, hpolarisations]
  have hjudged := layoutOf_judged bytes hlayout
  cases hof : layoutOf bytes size with
  | error reason =>
    rw [hof] at hjudged
    exact hjudged
  | ok layout =>
    rw [hof] at hjudged
    exact ⟨hjudged.1, hsize.symm, hjudged.2⟩

theorem judged_ofBytes (bytes : List UInt8) :
    Judged bytes (violation? bytes) (ofBytes bytes) := by
  unfold violation?
  dsimp only
  by_cases hwidth : bytes.length < 4
  · rw [if_pos hwidth, ofBytes_of_short hwidth]
    rfl
  rw [if_neg hwidth]
  have hle : sizeWidth ≤ bytes.length := Nat.le_of_not_lt hwidth
  by_cases hlayout : (Stored.field Int32 bytes 0 : Int32).toInt = 64 ∨
      (Stored.field Int32 bytes 0 : Int32).toInt = 84 ∨
      92 ≤ (Stored.field Int32 bytes 0 : Int32).toInt
  · rw [if_neg (Decidable.not_not.mpr hlayout)]
    obtain ⟨size, hsize⟩ : ∃ size : Nat, (Stored.field Int32 bytes 0 : Int32).toInt = size :=
      ⟨_, (Int.toNat_of_nonneg (by omega)).symm⟩
    rw [hsize] at hlayout ⊢
    have hnat : size = plainSize ∨ size = jobSize ∨ namesSize ≤ size := by
      simp only [plainSize, jobSize, namesSize]
      omega
    have hchecked := checkSize_eq_ok_iff.mpr ⟨hnat, hsize⟩
    by_cases hcut : bytes.length < size
    · rw [if_pos (by omega), ofBytes_of_cut hle hchecked hcut]
      rfl
    · rw [if_neg (by omega), ofBytes_of_whole hchecked (Nat.le_of_not_lt hcut)]
      exact judged_contents hnat hsize
  · rw [if_pos hlayout, ofBytes_of_checkSize_error hle (if_neg hlayout)]
    rfl

/-- Bytes that follow the format are read as a header of the declared length, with the layout
that belongs to it, and any other bytes fail with the first rule they break.  No access is
ever out of range, and neither what stands behind the header nor its padding matters. -/
theorem ofBytes_follows_format (bytes : List UInt8) :
    (∀ reason, ofBytes bytes = .error reason ↔ violation? bytes = some reason) ∧
    (violation? bytes = none → ∃ header, ofBytes bytes = .ok header ∧
      (header.size : Int) = (Stored.field Int32 bytes 0 : Int32).toInt ∧
      OfSize header.size header.layout) ∧
    (ofBytesWithin bytes).run = some (ofBytes bytes) ∧
    ∀ bytes', SameBelow (extent bytes) bytes bytes' → extent bytes ≤ bytes.length →
      extent bytes ≤ bytes'.length → ofBytes bytes' = ofBytes bytes := by
  have hjudged := judged_ofBytes bytes
  refine ⟨fun reason => ?_, fun hnone => ?_, run_ofBytesWithin bytes,
    fun bytes' => ofBytes_congr⟩
  · cases hbytes : ofBytes bytes with
    | error reason' =>
      rw [hbytes] at hjudged
      rw [show violation? bytes = some reason' from hjudged, Except.error.injEq,
        Option.some.injEq]
    | ok header =>
      rw [hbytes] at hjudged
      rw [hjudged.1]
      simp
  · cases hbytes : ofBytes bytes with
    | error reason =>
      rw [hbytes] at hjudged
      cases hnone.symm.trans hjudged
    | ok header =>
      rw [hbytes] at hjudged
      exact ⟨header, rfl, hjudged.2⟩

/-- A header that declares five stations and one source but holds two names.  With other
padding, and with bytes behind it, it fails in the same way. -/
theorem ofBytes_of_missing_names :
    let f : Fields := { experiment := "N24L1", channels := 4, names := some ⟨["Ef"], ["3C48"]⟩ }
    let bytes := f.encode.set 84 5
    let other := bytes.set 62 0xFF ++ [1, 2, 3]
    ofBytes bytes = .error (.nameCount 5 1 2) ∧ SameBelow (extent bytes) bytes other ∧
      ofBytes other = .error (.nameCount 5 1 2) := by
  intro f bytes other
  obtain ⟨hfails, -, -, hcongr⟩ := ofBytes_follows_format bytes
  have hviolation : violation? bytes = some (.nameCount 5 1 2) := by decide +kernel
  have hsame : SameBelow (extent bytes) bytes other := by
    unfold SameBelow
    decide +kernel
  have hbytes := (hfails _).mpr hviolation
  exact ⟨hbytes, hsame,
    (hcongr other hsame (by decide +kernel) (by decide +kernel)).trans hbytes⟩

end Header
end Correlator
