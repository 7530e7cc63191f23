import Correlator.Proofs.Header.Agreement
import Correlator.Proofs.Header.Names
import Mathlib.Data.List.TakeWhile

/-!
# Headers that were written

`Fields.encode` writes a header.  `WellFormed.reads_back` says what comes of it when it is read
in place, for all layouts and with anything behind it, and `read_written` that a stream with
such a header is left at the first run.
-/

namespace Correlator

namespace Stored

/- Fields behind a written part, for offsets that are numbers. -/

variable {α β : Type} [Stored α] [Stored β] {rest : List UInt8} {width offset : Nat}

theorem field_here {a : α} (h : offset = 0) : field α (encode a ++ rest) offset = a := by
  rw [h, field_zero]

theorem field_past {a : α} (h : Stored.width α ≤ offset) :
    field β (encode a ++ rest) offset = field β rest (offset - Stored.width α) :=
  field_skip (length_encode a) h

theorem field_past_padded {text : String} (hwidth : 0 < width) (h : width ≤ offset) :
    field β (Field.padded width text ++ rest) offset = field β rest (offset - width) :=
  field_skip (Field.length_padded width text hwidth) h

end Stored

namespace Field

/-- What a field with room for `room` bytes of a text gives back of it. -/
def kept (room : Nat) (text : String) : String :=
  Utf8.decode (((Utf8.encode text).take room).takeWhile (· != 0))

/-- Texts that a field with room for `room` bytes holds whole. -/
structure Fits (room : Nat) (text : String) : Prop where
  nul : '\x00' ∉ text.toList
  length : (Utf8.encode text).length ≤ room

theorem Fits.kept {room : Nat} {text : String} (h : Fits room text) : kept room text = text := by
  have hnul : ∀ b ∈ Utf8.encode text, (b != 0) = true := by
    intro b hb
    rw [bne_iff_ne]
    rintro rfl
    exact Utf8.zero_notMem_encode h.nul hb
  rw [Field.kept, List.take_of_length_le h.length, List.takeWhile_eq_self_iff.mpr hnul,
    Utf8.decode_encode]

/-- The bytes after a text are NULs, and there is at least one. -/
theorem text_padded {width : Nat} (h : 0 < width) (text : String) :
    Field.text (padded width text) = kept (width - 1) text := by
  have hroom : ((Utf8.encode text).take (width - 1)).length < width := by
    rw [List.length_take]
    omega
  unfold Field.text padded kept
  dsimp only
  generalize (Utf8.encode text).take (width - 1) = bytes at hroom ⊢
  have hcount : width - bytes.length = width - bytes.length - 1 + 1 := by omega
  rw [hcount, List.replicate_succ, List.takeWhile_append]
  split
  · rename_i hwhole
    rw [List.takeWhile_cons_of_neg (by decide), List.append_nil,
      (List.takeWhile_prefix _).eq_of_length hwhole]
  · rfl

end Field

namespace Header

theorem textAt_here {width offset : Nat} {text : String} {rest : List UInt8} (hwidth : 0 < width)
    (h : offset = 0) :
    textAt (Field.padded width text ++ rest) offset width = Field.kept (width - 1) text := by
  rw [h, textAt, List.drop_zero, List.take_left' (Field.length_padded _ _ hwidth),
    Field.text_padded hwidth]

theorem textAt_append {before rest : List UInt8} {offset width : Nat}
    (h : before.length ≤ offset) :
    textAt (before ++ rest) offset width = textAt rest (offset - before.length) width := by
  rw [textAt, textAt, List.drop_append, List.drop_of_length_le h, List.nil_append]

theorem textAt_past {α : Type} [Stored α] {a : α} {rest : List UInt8} {offset width : Nat}
    (h : Stored.width α ≤ offset) :
    textAt (Stored.encode a ++ rest) offset width
      = textAt rest (offset - Stored.width α) width := by
  rw [← Stored.length_encode a] at h ⊢
  exact textAt_append h

/-- A length that belongs to a layout and fits into its field is found to do so. -/
theorem checkSize_ofNat {size : Nat}
    (hlayout : size = plainSize ∨ size = jobSize ∨ namesSize ≤ size) (h : size < 2 ^ 31) :
    checkSize (Int32.ofNat size) = .ok size :=
  checkSize_eq_ok_iff.mpr ⟨hlayout, Int32.toInt_ofNat_of_lt h⟩

namespace Fields

/-- What the fields of a header must be so that it reads back: it has a code of a
polarisation, no more channels than are taken seriously, names without NULs, and a
length that fits into its field. -/
structure WellFormed (f : Fields) : Prop where
  size : f.size < 2 ^ 31
  channels : f.channels.toInt ≤ maxChannels
  polarisation : 0 ≤ f.polarisation ∧ f.polarisation ≤ 3
  names : ∀ names ∈ f.names, ∀ name ∈ names.stations ++ names.sources, '\x00' ∉ name.toList

variable {f : Fields}

theorem size_layout (f : Fields) :
    f.size = plainSize ∨ f.size = jobSize ∨ namesSize ≤ f.size := by
  unfold size
  split
  · exact .inr (.inr (Nat.le_add_right _ _))
  · exact .inr (.inl rfl)
  · exact .inl rfl

theorem length_encodeStart (f : Fields) : f.encodeStart.length = plainSize := by
  have hwidth : 0 < experimentWidth := by decide
  simp only [encodeStart, List.length_append, Stored.length_encode,
    Field.length_padded _ _ hwidth]
  rfl

theorem length_encodeJob (job : Job) : (encodeJob job).length = jobSize - plainSize := by
  have hwidth : 0 < branchWidth := by decide
  simp only [encodeJob, List.length_append, Stored.length_encode, Field.length_padded _ _ hwidth]
  rfl

theorem length_encode (f : Fields) : f.encode.length = f.size := by
  unfold encode size
  rw [List.length_append, length_encodeStart]
  split
  · simp only [encodeNames, List.length_append, length_encodeJob, Stored.length_encode]
    rw [← Nat.add_assoc, ← Nat.add_assoc, ← Nat.add_assoc]
    rfl
  · rw [length_encodeJob]
    rfl
  · rfl

/- The fields that all layouts have, by skipping the parts before them. -/

theorem field_size (f : Fields) (rest : List UInt8) :
    Stored.field Int32 (f.encodeStart ++ rest) 0 = Int32.ofNat f.size := by
  simp only [encodeStart, List.append_assoc, Stored.field_zero]

theorem field_channels (f : Fields) (rest : List UInt8) :
    Stored.field Int32 (f.encodeStart ++ rest) 44 = f.channels := by
  simp (disch := decide) only [encodeStart, List.append_assoc, Stored.field_past,
    Stored.field_past_padded, Stored.field_here]

theorem field_polarisation (f : Fields) (rest : List UInt8) :
    Stored.field Int8 (f.encodeStart ++ rest) 60 = f.polarisation := by
  simp (disch := decide) only [encodeStart, List.append_assoc, Stored.field_past,
    Stored.field_past_padded, Stored.field_here]

theorem assemble_encodeStart (f : Fields) (rest : List UInt8) (size channels : Nat)
    (polarisations : Polarisations) (layout : Layout) :
    assemble (f.encodeStart ++ rest) size channels polarisations layout = {
      size, channels, polarisations, layout
      experiment := Field.kept 31 f.experiment
      startYear := f.startYear
      startDay := f.startDay
      startSecond := f.startSecond
      integration := f.integration
      formatVersion := f.formatVersion
      correlatorVersion := f.correlatorVersion } := by
  simp (disch := decide) only [assemble, encodeStart, List.append_assoc, Stored.field_past,
    Stored.field_past_padded, Stored.field_here, textAt_past, textAt_here]
  rfl

theorem WellFormed.checkChannels_eq (h : f.WellFormed) :
    checkChannels f.channels = .ok f.channels.toInt.toNat := by
  have hle := h.channels
  unfold checkChannels
  dsimp only
  rw [if_neg (by omega)]

theorem WellFormed.exists_polarisations (h : f.WellFormed) :
    ∃ polarisations, Polarisations.ofCode f.polarisation = .ok polarisations ∧
      polarisations.toCode = f.polarisation := by
  obtain ⟨hlow, hhigh⟩ := h.polarisation
  rw [Int8.le_iff_toInt_le] at hlow hhigh
  have hcode : f.polarisation.toInt = (0 : Int8).toInt ∨ f.polarisation.toInt = (1 : Int8).toInt ∨
      f.polarisation.toInt = (2 : Int8).toInt ∨ f.polarisation.toInt = (3 : Int8).toInt := by
    simp only [Int8.reduceToInt] at hlow hhigh ⊢
    omega
  simp only [Int8.toInt_inj] at hcode
  rcases hcode with h | h | h | h <;> rw [h]
  · exact ⟨.left, rfl, rfl⟩
  · exact ⟨.right, rfl, rfl⟩
  · exact ⟨.parallel, rfl, rfl⟩
  · exact ⟨.full, rfl, rfl⟩

/- What depends on the layout. -/

/-- The layout that is asked for, with all that belongs to it. -/
def layout (f : Fields) : Layout :=
  match f.names, f.job with
  | some names, job => .withNames (job.getD {}) names
  | none, some job => .withJob job
  | none, none => .plain

/-- A job as it reads back.  A long branch loses its end. -/
def keptJob (job : Job) : Job := { job with branch := Field.kept 11 job.branch }

/-- A layout as it reads back. -/
def keptLayout : Layout → Layout
  | .plain => .plain
  | .withJob job => .withJob (keptJob job)
  | .withNames job names => .withNames (keptJob job) names

theorem keptJob_of_fits {job : Job} (h : Field.Fits 11 job.branch) : keptJob job = job := by
  rw [keptJob, h.kept]

theorem keptLayout_of_fits (h : Field.Fits 11 (f.job.getD {}).branch) :
    keptLayout f.layout = f.layout := by
  have hjob := keptJob_of_fits h
  unfold layout
  split
  · rw [keptLayout, hjob]
  · rename_i hf
    rw [hf, Option.getD_some] at hjob
    rw [keptLayout, hjob]
  · rfl

theorem jobAt_encodeJob (f : Fields) (job : Job) (rest : List UInt8) :
    jobAt (f.encodeStart ++ (encodeJob job ++ rest)) = keptJob job := by
  have hwidth : plainSize ≤ 64 ∧ plainSize ≤ 76 ∧ plainSize ≤ 80 := by decide
  have hbranch : textAt (f.encodeStart ++ (encodeJob job ++ rest)) 64 branchWidth
      = textAt (encodeJob job ++ rest) (64 - plainSize) branchWidth := by
    rw [← f.length_encodeStart] at hwidth ⊢
    exact textAt_append hwidth.1
  rw [jobAt, hbranch, Stored.field_skip f.length_encodeStart hwidth.2.1,
    Stored.field_skip f.length_encodeStart hwidth.2.2]
  simp (disch := decide) only [encodeJob, List.append_assoc, Stored.field_past,
    Stored.field_past_padded, Stored.field_here, textAt_here]
  rfl

theorem block_encode {names : Names} (hnames : f.names = some names) (tail : List UInt8) :
    ((f.encode ++ tail).take f.size).drop namesSize = names.toBlock := by
  have hencode : f.encode = f.encodeStart ++ encodeJob (f.job.getD {})
      ++ Stored.encode (Int32.ofNat names.stations.length)
      ++ Stored.encode (Int32.ofNat names.sources.length) ++ names.toBlock := by
    simp only [encode, hnames, encodeNames, List.append_assoc]
  rw [List.take_left' f.length_encode, hencode, List.drop_left']
  simp only [List.length_append, length_encodeStart, length_encodeJob, Stored.length_encode]
  rfl

theorem WellFormed.ofBlock_encode (h : f.WellFormed) {names : Names}
    (hnames : f.names = some names) (tail : List UInt8) :
    Names.ofBlock (((f.encode ++ tail).take f.size).drop namesSize)
      (Stored.field Int32 (f.encode ++ tail) 84) (Stored.field Int32 (f.encode ++ tail) 88)
      = .ok names := by
  have hsize := h.size
  simp only [Fields.size, hnames] at hsize
  have hbytes : f.encode ++ tail = f.encodeStart ++ (encodeJob (f.job.getD {})
      ++ (Stored.encode (Int32.ofNat names.stations.length)
        ++ (Stored.encode (Int32.ofNat names.sources.length) ++ (names.toBlock ++ tail)))) := by
    simp only [encode, hnames, encodeNames, List.append_assoc]
  have hstations : Stored.field Int32 (f.encode ++ tail) 84
      = Int32.ofNat names.stations.length := by
    rw [hbytes, Stored.field_skip f.length_encodeStart (by decide),
      Stored.field_skip (length_encodeJob _) (by decide)]
    exact Stored.field_zero _ _
  have hsources : Stored.field Int32 (f.encode ++ tail) 88
      = Int32.ofNat names.sources.length := by
    rw [hbytes, Stored.field_skip f.length_encodeStart (by decide),
      Stored.field_skip (length_encodeJob _) (by decide),
      Stored.field_skip (Stored.length_encode _) (by decide)]
    exact Stored.field_zero _ _
  rw [block_encode hnames, hstations, hsources,
    Names.ofBlock_toBlock (by omega) (h.names names hnames)]

/-- The layout is read off the length, and comes out as the one that was asked for. -/
theorem WellFormed.layoutOf_encode (h : f.WellFormed) (tail : List UInt8) :
    layoutOf (f.encode ++ tail) f.size = .ok (keptLayout f.layout) := by
  cases hnames : f.names with
  | some names =>
    have hsize : namesSize ≤ f.size := by
      simp only [Fields.size, hnames]
      exact Nat.le_add_right _ _
    have hbytes : f.encode ++ tail
        = f.encodeStart ++ (encodeJob (f.job.getD {}) ++ (encodeNames names ++ tail)) := by
      simp only [encode, hnames, List.append_assoc]
    have hjob : jobAt (f.encode ++ tail) = keptJob (f.job.getD {}) := by
      rw [hbytes, jobAt_encodeJob]
    rw [layoutOf_of_namesSize_le hsize, h.ofBlock_encode hnames, hjob, layout, hnames]
    rfl
  | none =>
    cases hjob : f.job with
    | some job =>
      have hsize : f.size = jobSize := by simp only [Fields.size, hnames, hjob]
      have hbytes : f.encode ++ tail = f.encodeStart ++ (encodeJob job ++ tail) := by
        simp only [encode, hnames, hjob, List.append_assoc]
      rw [hbytes, hsize, layoutOf_jobSize, jobAt_encodeJob, layout, hnames, hjob]
      rfl
    | none =>
      have hsize : f.size = plainSize := by simp only [Fields.size, hnames, hjob]
      rw [hsize, layoutOf_plainSize, layout, hnames, hjob]
      rfl

/-- What a header reads as that was written with `f`: the numbers are the same, and the texts
are what their fields keep of them. -/
structure ReadAs (f : Fields) (header : Header) : Prop where
  size : header.size = f.encode.length
  experiment : header.experiment = Field.kept 31 f.experiment
  start : header.startYear = f.startYear ∧ header.startDay = f.startDay ∧
    header.startSecond = f.startSecond
  channels : (header.channels : Int) = max f.channels.toInt 0
  integration : header.integration = f.integration
  versions : header.formatVersion = f.formatVersion ∧
    header.correlatorVersion = f.correlatorVersion
  polarisations : header.polarisations.toCode = f.polarisation
  layout : header.layout = keptLayout f.layout

theorem WellFormed.exists_readAs (h : f.WellFormed) (tail : List UInt8) :
    ∃ header, ofBytes (f.encode ++ tail) = .ok header ∧ f.ReadAs header := by
  obtain ⟨polarisations, hpolarisations, hmode⟩ := h.exists_polarisations
  have hlength : f.size ≤ (f.encode ++ tail).length := by
    rw [List.length_append, length_encode]
    omega
  have hfields : f.encode ++ tail = f.encodeStart ++ (f.encode.drop plainSize ++ tail) := by
    rw [encode, List.drop_left' f.length_encodeStart, List.append_assoc]
  have hsize : checkSize (Stored.field Int32 (f.encode ++ tail) 0) = .ok f.size := by
    rw [hfields, field_size, checkSize_ofNat f.size_layout h.size]
  have hchannels : checkChannels (Stored.field Int32 (f.encode ++ tail) 44)
      = .ok f.channels.toInt.toNat := by
    rw [hfields, field_channels, h.checkChannels_eq]
  have hcode : Polarisations.ofCode (Stored.field Int8 (f.encode ++ tail) 60)
      = .ok polarisations := by
    rw [hfields, field_polarisation, hpolarisations]
  refine ⟨_, (ofBytes_of_whole hsize hlength).trans (contents_eq_ok_iff.mpr
    ⟨_, _, _, hchannels, hcode, h.layoutOf_encode tail, rfl⟩), ?_⟩
  rw [hfields, assemble_encodeStart]
  exact {
    size := f.length_encode.symm
    experiment := rfl
    start := ⟨rfl, rfl, rfl⟩
    channels := Int.toNat_eq_max _
    integration := rfl
    versions := ⟨rfl, rfl⟩
    polarisations := hmode
    layout := rfl }

/-- A header that was written is read back, with its channels. -/
theorem WellFormed.ofBytes_encode (h : f.WellFormed) (tail : List UInt8) :
    ∃ header, ofBytes (f.encode ++ tail) = .ok header ∧ header.size = f.size ∧
      header.channels = f.channels.toInt.toNat := by
  obtain ⟨header, hheader, hread⟩ := h.exists_readAs tail
  have hchannels := hread.channels
  exact ⟨header, hheader, hread.size.trans f.length_encode, by omega⟩

/-- Headers of all layouts, with anything behind them, are read back: the numbers as they
were written, a text that fits into its field as it was and any other cut to what the field
keeps, and the layout that the names and the job ask for. -/
theorem WellFormed.reads_back (h : f.WellFormed) (tail : List UInt8) :
    ∃ header, ofBytes (f.encode ++ tail) = .ok header ∧ f.ReadAs header ∧
      (Field.Fits 31 f.experiment → header.experiment = f.experiment) ∧
      (Field.Fits 11 (f.job.getD {}).branch → header.layout = f.layout) := by
  obtain ⟨header, hheader, hread⟩ := h.exists_readAs tail
  refine ⟨header, hheader, hread, fun hfits => ?_, fun hfits => ?_⟩
  · rw [hread.experiment, hfits.kept]
  · rw [hread.layout, keptLayout_of_fits hfits]

/-- An experiment of which a character is cut in half, a branch that fits, names of which some
are empty, fewer channels than none, and bytes behind the header. -/
theorem reads_back_of_cut_experiment :
    let job : Job := ⟨"størrelse", 7, -1⟩
    let names : Names := ⟨["Ef", "", "Øst"], ["", ""]⟩
    let f : Fields := { experiment := "a rather long experiment name é", channels := -5,
                        polarisation := 3, job := some job, names := some names }
    f.WellFormed ∧ Field.Fits 11 job.branch ∧
      ∃ header, ofBytes (f.encode ++ [0xFF, 0]) = .ok header ∧ header.size = 103 ∧
        header.experiment = "a rather long experiment name \uFFFD" ∧ header.channels = 0 ∧
        header.polarisations = .full ∧ header.layout = .withNames job names := by
  intro job names f
  have hnul : ∀ name ∈ names.stations ++ names.sources, '\x00' ∉ name.toList := by decide
  have hf : f.WellFormed := by
    refine ⟨by decide +kernel, by decide, by decide, ?_⟩
    rintro _ ⟨⟩
    exact hnul
  have hbranch : Field.Fits 11 job.branch := ⟨by decide, by decide⟩
  obtain ⟨header, hheader, hread, -, hlayout⟩ := hf.reads_back [0xFF, 0]
  have hchannels : (header.channels : Int) = 0 := hread.channels
  have hmode : header.polarisations.toCode = 3 := hread.polarisations
  refine ⟨hf, hbranch, header, hheader, ?_, ?_, by omega, ?_, hlayout hbranch⟩
  · rw [hread.size]
    decide +kernel
  · rw [hread.experiment]
    decide +kernel
  · cases hp : header.polarisations with
    | full => rfl
    | left | right | parallel =>
      rw [hp] at hmode
      exact absurd hmode (by decide)

end Fields

/-- A header that was written at the start of a stream is read, and the stream then
stands behind it. -/
theorem read_written {f : Fields} {header : Header} (hsize : f.size < 2 ^ 31)
    (hheader : ofBytes f.encode = .ok header) {source : Source} {tail : List UInt8}
    (hsource : source.Serves (f.encode ++ tail)) :
    ∃ source', read source = .ok header source' ∧ source.Reaches tail source' := by
  have hlength : f.size ≤ (f.encode ++ tail).length := by
    rw [List.length_append, Fields.length_encode]
    omega
  have hdeclared : checkSize (Stored.field Int32 (f.encode ++ tail) 0) = .ok f.size := by
    rw [Fields.encode, List.append_assoc, Fields.field_size, checkSize_ofNat f.size_layout hsize]
  have hwhole : ofBytes (f.encode ++ tail) = .ok header := by
    rw [← ofBytes_take hdeclared hlength, List.take_left' f.length_encode, hheader]
  obtain ⟨source', hread, hreach⟩ := read_eq_ofBytes (hsource.offers _)
  rw [hwhole] at hread
  rw [extent_of_checkSize hdeclared, hsource.ahead, List.drop_left' f.length_encode] at hreach
  exact ⟨source', hread, hreach⟩

end Header
end Correlator
