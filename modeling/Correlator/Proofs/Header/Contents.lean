import Correlator.Header.Parse

/-!
# Header bytes of sufficient length

Reading a header looks at its length first.  `ofBytes_of_whole` says that what comes after,
`contents`, is all that matters once as many bytes are there as are declared; before that
there is one equation for each way to stop.
-/

namespace Correlator
namespace Header

variable {bytes : List UInt8} {declared : Int32} {size : Nat} {reason : DecodeError}

/-- The header in bytes that hold all of it, given what its checked fields stand for. -/
def assemble (bytes : List UInt8) (size channels : Nat) (polarisations : Polarisations)
    (layout : Layout) : Header where
  size := size
  experiment := textAt bytes 4 experimentWidth
  startYear := Stored.field Int16 bytes 36
  startDay := Stored.field Int16 bytes 38
  startSecond := Stored.field Int32 bytes 40
  channels := channels
  integration := Stored.field Int32 bytes 48
  formatVersion := Stored.field Int32 bytes 52
  correlatorVersion := Stored.field Int32 bytes 56
  polarisations := polarisations
  layout := layout

/-- The header in bytes that hold all of it, if its fields are sound. -/
def contents (bytes : List UInt8) (size : Nat) : Except DecodeError Header := do
  let channels ← checkChannels (Stored.field Int32 bytes 44)
  let polarisations ← Polarisations.ofCode (Stored.field Int8 bytes 60)
  let layout ← layoutOf bytes size
  return assemble bytes size channels polarisations layout

theorem checkSize_eq_ok_iff : checkSize declared = .ok size ↔
    (size = plainSize ∨ size = jobSize ∨ namesSize ≤ size) ∧ declared.toInt = size := by
  have hnames : 0 < namesSize := by decide
  unfold checkSize
  dsimp only
  by_cases h : declared.toInt = plainSize ∨ declared.toInt = jobSize ∨
      (namesSize : Int) ≤ declared.toInt
  · rw [if_pos h, Except.ok.injEq]
    omega
  · rw [if_neg h]
    constructor
    · intro herror
      cases herror
    · intro hsize
      omega

theorem checkSize_eq_error (h : checkSize declared = .error reason) :
    reason = .headerSize declared := by
  unfold checkSize at h
  dsimp only at h
  split at h
  · simp at h
  · exact (Except.error.inj h).symm

theorem plainSize_le_of_layout (h : size = plainSize ∨ size = jobSize ∨ namesSize ≤ size) :
    plainSize ≤ size := by
  simp only [plainSize, jobSize, namesSize] at h ⊢
  omega

theorem sizeWidth_le_of_checkSize (h : checkSize declared = .ok size) : sizeWidth ≤ size :=
  Nat.le_trans (by decide) (plainSize_le_of_layout (checkSize_eq_ok_iff.mp h).1)

theorem ofBytes_of_short (h : bytes.length < sizeWidth) :
    ofBytes bytes = .error (.headerCut sizeWidth bytes.length) := by
  unfold ofBytes
  rw [if_pos h]
  rfl

theorem ofBytes_of_checkSize_error (hwidth : sizeWidth ≤ bytes.length)
    (h : checkSize (Stored.field Int32 bytes 0) = .error reason) :
    ofBytes bytes = .error reason := by
  unfold ofBytes
  rw [if_neg (Nat.not_lt.mpr hwidth), h]
  rfl

theorem ofBytes_of_cut (hwidth : sizeWidth ≤ bytes.length)
    (hsize : checkSize (Stored.field Int32 bytes 0) = .ok size) (h : bytes.length < size) :
    ofBytes bytes = .error (.headerCut size bytes.length) := by
  unfold ofBytes
  rw [if_neg (Nat.not_lt.mpr hwidth), hsize]
  exact if_pos h

theorem ofBytes_of_whole (hsize : checkSize (Stored.field Int32 bytes 0) = .ok size)
    (h : size ≤ bytes.length) : ofBytes bytes = contents bytes size := by
  have hwidth := Nat.le_trans (sizeWidth_le_of_checkSize hsize) h
  unfold ofBytes
  rw [if_neg (Nat.not_lt.mpr hwidth), hsize]
  exact if_neg (Nat.not_lt.mpr h)

/-- Bytes that hold a header hold all of it. -/
theorem whole_of_ofBytes {header : Header} (h : ofBytes bytes = .ok header) :
    ∃ size, checkSize (Stored.field Int32 bytes 0) = .ok size ∧ size ≤ bytes.length ∧
      contents bytes size = .ok header := by
  by_cases hwidth : sizeWidth ≤ bytes.length
  · cases hsize : checkSize (Stored.field Int32 bytes 0) with
    | error reason => simp [ofBytes_of_checkSize_error hwidth hsize] at h
    | ok size =>
      by_cases hwhole : size ≤ bytes.length
      · exact ⟨size, rfl, hwhole, by rw [← ofBytes_of_whole hsize hwhole, h]⟩
      · simp [ofBytes_of_cut hwidth hsize (Nat.lt_of_not_le hwhole)] at h
  · simp [ofBytes_of_short (Nat.lt_of_not_le hwidth)] at h

theorem checkChannels_eq_error (h : checkChannels declared = .error reason) :
    reason = .channelCount declared := by
  unfold checkChannels at h
  dsimp only at h
  split at h
  · exact (Except.error.inj h).symm
  · simp at h

theorem checkChannels_eq_ok {channels : Nat} (h : checkChannels declared = .ok channels) :
    channels = declared.toInt.toNat := by
  unfold checkChannels at h
  dsimp only at h
  split at h
  · simp at h
  · exact (Except.ok.inj h).symm

theorem layoutOf_plainSize (bytes : List UInt8) : layoutOf bytes plainSize = .ok .plain :=
  if_pos rfl

theorem layoutOf_jobSize (bytes : List UInt8) :
    layoutOf bytes jobSize = .ok (.withJob (jobAt bytes)) := by
  rw [layoutOf, if_neg (by decide), if_pos rfl]

theorem layoutOf_of_namesSize_le (h : namesSize ≤ size) :
    layoutOf bytes size = (Names.ofBlock ((bytes.take size).drop namesSize)
      (Stored.field Int32 bytes 84) (Stored.field Int32 bytes 88)).map
        (.withNames (jobAt bytes)) := by
  have hplain : plainSize < namesSize := by decide
  have hjob : jobSize < namesSize := by decide
  rw [layoutOf, if_neg (by omega), if_neg (by omega)]
  cases Names.ofBlock ((bytes.take size).drop namesSize) (Stored.field Int32 bytes 84)
    (Stored.field Int32 bytes 88) <;> rfl

theorem contents_eq_ok_iff {header : Header} : contents bytes size = .ok header ↔
    ∃ channels polarisations layout,
      checkChannels (Stored.field Int32 bytes 44) = .ok channels ∧
      Polarisations.ofCode (Stored.field Int8 bytes 60) = .ok polarisations ∧
      layoutOf bytes size = .ok layout ∧
      assemble bytes size channels polarisations layout = header := by
  unfold contents
  cases checkChannels (Stored.field Int32 bytes 44) with
  | error reason => simp [bind, Except.bind]
  | ok channels =>
    cases Polarisations.ofCode (Stored.field Int8 bytes 60) with
    | error reason => simp [bind, Except.bind]
    | ok polarisations =>
      cases layoutOf bytes size <;> simp [bind, Except.bind, pure, Except.pure]

end Header
end Correlator
