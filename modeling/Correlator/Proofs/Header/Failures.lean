import Correlator.Proofs.Header.Contents
import Correlator.Proofs.Stream.Lockstep
import Correlator.Proofs.Transcript.Parser

/-!
# How reading a header fails

Bytes that hold no header have one of a few flaws, and each is reported with the field
that has it.  `lockstep_read` takes two streams through reading a header, which goes back
to the start and reads the first bytes a second time; `read_ne_headerCut` says that a header
is not taken for cut short where it is the stream that fails.
-/

namespace Correlator
namespace Header

/-- What may be wrong with the bytes of a header. -/
inductive Flaw (bytes : List UInt8) : DecodeError → Prop
  | noSize : bytes.length < sizeWidth → Flaw bytes (.headerCut sizeWidth bytes.length)
  | size : Flaw bytes (.headerSize (Stored.field Int32 bytes 0))
  | cut {size : Nat} :
    checkSize (Stored.field Int32 bytes 0) = .ok size → bytes.length < size →
      Flaw bytes (.headerCut size bytes.length)
  | channels : Flaw bytes (.channelCount (Stored.field Int32 bytes 44))
  | polarisations : Flaw bytes (.polarisation (Stored.field Int8 bytes 60))
  | names (found : Nat) :
    Flaw bytes (.nameCount (Stored.field Int32 bytes 84) (Stored.field Int32 bytes 88) found)

variable {bytes : List UInt8} {reason : DecodeError}

theorem ofCode_eq_error {code : Int8} (h : Polarisations.ofCode code = .error reason) :
    reason = .polarisation code := by
  unfold Polarisations.ofCode at h
  repeat' split at h
  all_goals simp_all

theorem ofBlock_eq_error {block : List UInt8} {stations sources : Int32}
    (h : Names.ofBlock block stations sources = .error reason) :
    ∃ found, reason = .nameCount stations sources found := by
  unfold Names.ofBlock at h
  dsimp only at h
  split at h
  · exact ⟨0, (Except.error.inj h).symm⟩
  · split at h
    · exact ⟨_, (Except.error.inj h).symm⟩
    · simp at h

theorem layoutOf_eq_error {size : Nat} (h : layoutOf bytes size = .error reason) :
    Flaw bytes reason := by
  unfold layoutOf at h
  split at h
  · simp at h
  · split at h
    · simp at h
    · split at h
      · simp at h
      · rename_i hnames
        obtain ⟨found, rfl⟩ := ofBlock_eq_error hnames
        rw [← Except.error.inj h]
        exact .names found

theorem contents_eq_error {size : Nat} (h : contents bytes size = .error reason) :
    Flaw bytes reason := by
  unfold contents at h
  cases hchannels : checkChannels (Stored.field Int32 bytes 44) with
  | error reason' =>
    rw [hchannels] at h
    rw [← Except.error.inj h, checkChannels_eq_error hchannels]
    exact .channels
  | ok channels =>
    cases hcode : Polarisations.ofCode (Stored.field Int8 bytes 60) with
    | error reason' =>
      rw [hchannels, hcode] at h
      rw [← Except.error.inj h, ofCode_eq_error hcode]
      exact .polarisations
    | ok polarisations =>
      cases hlayout : layoutOf bytes size with
      | error reason' =>
        rw [hchannels, hcode, hlayout] at h
        rw [← Except.error.inj h]
        exact layoutOf_eq_error hlayout
      | ok layout =>
        rw [hchannels, hcode, hlayout] at h
        cases h

theorem ofBytes_eq_error (h : ofBytes bytes = .error reason) : Flaw bytes reason := by
  by_cases hwidth : sizeWidth ≤ bytes.length
  · cases hsize : checkSize (Stored.field Int32 bytes 0) with
    | error reason' =>
      rw [ofBytes_of_checkSize_error hwidth hsize] at h
      rw [← Except.error.inj h, checkSize_eq_error hsize]
      exact .size
    | ok size =>
      by_cases hwhole : size ≤ bytes.length
      · rw [ofBytes_of_whole hsize hwhole] at h
        exact contents_eq_error h
      · rw [ofBytes_of_cut hwidth hsize (Nat.lt_of_not_le hwhole)] at h
        rw [← Except.error.inj h]
        exact .cut hsize (Nat.lt_of_not_le hwhole)
  · rw [ofBytes_of_short (Nat.lt_of_not_le hwidth)] at h
    rw [← Except.error.inj h]
    exact .noSize (Nat.lt_of_not_le hwidth)

/-- A header that reads has as many channels as it declares, and none if it declares fewer
than none. -/
theorem channels_of_ofBytes {header : Header} (h : ofBytes bytes = .ok header) :
    header.channels = (Stored.field Int32 bytes 44).toInt.toNat := by
  obtain ⟨size, -, -, hcontents⟩ := whole_of_ofBytes h
  obtain ⟨channels, polarisations, layout, hchannels, -, -, rfl⟩ := contents_eq_ok_iff.mp hcontents
  exact checkChannels_eq_ok hchannels

theorem Flaw.isEndOfStream (h : Flaw bytes reason) : reason.isEndOfStream = false := by
  cases h <;> rfl

theorem complete_checkSize (declared : Int32) : Complete (checkSize declared) := by
  intro reason h
  rw [checkSize_eq_error h]
  rfl

theorem lockstep_read {may : Allowance} :
    Lockstep (Source.Matches may) may (fun _ => True) read := by
  refine lockstep_bind (Reading.lockstep_upTo _) fun start _ => ?_
  split
  · exact lockstep_throw (by simp [DecodeError.isEndOfStream])
  · refine lockstep_bind (Reading.lockstep_ofExcept (complete_checkSize _))
      fun size _ => ?_
    refine lockstep_bind (Reading.lockstep_seek 0) fun _ _ => ?_
    refine lockstep_bind (Reading.lockstep_upTo size) fun bytes _ => ?_
    split
    · exact lockstep_throw (by simp [DecodeError.isEndOfStream])
    · exact lockstep_weaken
        (Reading.lockstep_ofExcept fun reason h => (ofBytes_eq_error h).isEndOfStream)
        fun _ _ => trivial

/-- Going back and reading the declared number of bytes. -/
def readWhole (size : Nat) : Reading Header := do
  Reading.seek 0
  let bytes ← Reading.upTo size
  if bytes.length < size then throw (.headerCut size bytes.length)
  Reading.ofExcept (ofBytes bytes)

theorem read_of_length {s s' : Source} {start : List UInt8}
    (h : Reading.upTo sizeWidth s = .ok start s') (hlength : sizeWidth ≤ start.length) :
    read s = (Reading.ofExcept (checkSize (Stored.field Int32 start 0)) >>= readWhole) s' := by
  rw [read, bind_of_ok h, if_neg (by omega)]
  rfl

theorem field_take {bytes : List UInt8} {size : Nat} (hsize : sizeWidth ≤ size)
    (h : size ≤ bytes.length) :
    Stored.field Int32 (bytes.take size) 0 = Stored.field Int32 bytes 0 := by
  have htake : (bytes.take size).take (Stored.width Int32) = bytes.take (Stored.width Int32) := by
    rw [List.take_take, Nat.min_eq_left (show Stored.width Int32 ≤ size from hsize)]
  have hfront : Stored.width Int32 ≤ (bytes.take size).length := by
    rw [List.length_take, Nat.min_eq_left h]
    exact hsize
  rw [Stored.field, Stored.field, List.drop_zero, List.drop_zero, ← Stored.decode_take hfront,
    htake, Stored.decode_take (Nat.le_trans hsize h)]

theorem readWhole_ne_headerCut {s : Source} {size : Nat} (hfault : ¬ s.RunsOut)
    (hsize : checkSize (Stored.field Int32 (Source.ahead { s with pos := 0 }) 0) = .ok size)
    (expected found : Nat) : (readWhole size).outcome s ≠ .error (.headerCut expected found) := by
  unfold Reading.outcome
  cases hseek : s.seekFault with
  | some why =>
    have hback : Reading.seek 0 s = .error (.stream why) s := by
      simp only [Reading.seek, Source.seek, hseek]
    rw [readWhole, bind_of_error hback]
    simp
  | none =>
    have hback : Reading.seek 0 s = .ok () { s with pos := 0 } := by
      simp only [Reading.seek, Source.seek, hseek]
    rw [readWhole, bind_of_ok hback]
    have hfault' : ¬ Source.RunsOut { s with pos := 0 } := hfault
    rcases Reading.upTo_of_fault hfault' size with ⟨why, s₁, hbytes⟩ | ⟨hwhole, s₁, hbytes, -⟩
    · rw [bind_of_error hbytes]
      simp
    · have hlength := List.length_take_of_le hwhole
      rw [bind_of_ok hbytes, if_neg (by omega)]
      rw [← field_take (sizeWidth_le_of_checkSize hsize) hwhole] at hsize
      generalize (Source.ahead { s with pos := 0 }).take size = bytes at hsize hlength ⊢
      have hwidth := sizeWidth_le_of_checkSize hsize
      cases hheader : ofBytes bytes with
      | ok header => simp [Reading.ofExcept]
      | error reason =>
        have hflaw := ofBytes_eq_error hheader
        simp only [Reading.ofExcept, ne_eq, Except.error.injEq]
        rintro rfl
        cases hflaw with
        | noSize hshort => omega
        | cut hsize' hshort =>
          rw [hsize] at hsize'
          have hsame := Except.ok.inj hsize'
          omega

/-- From the start of a stream that fails before it runs out: the header is there, or the
stream fails, or a field is wrong, but the header is never cut short. -/
theorem read_ne_headerCut {s : Source} (hpos : s.pos = 0) (hfault : ¬ s.RunsOut)
    (expected found : Nat) : read.outcome s ≠ .error (.headerCut expected found) := by
  rcases Reading.upTo_of_fault hfault sizeWidth with ⟨why, s₁, hstart⟩ | ⟨hwidth, s₁, hstart, hreach⟩
  · rw [Reading.outcome, read, bind_of_error hstart]
    simp
  have hlength := List.length_take_of_le hwidth
  have hahead := hreach.back.ahead
  rw [hpos] at hahead
  rw [Reading.outcome, read_of_length hstart (Nat.le_of_eq hlength.symm),
    field_take (Nat.le_refl _) hwidth]
  cases hsize : checkSize (Stored.field Int32 s.ahead 0) with
  | error reason =>
    rw [bind_of_error (show Reading.ofExcept _ s₁ = .error reason s₁ from rfl),
      checkSize_eq_error hsize]
    simp
  | ok size =>
    rw [bind_of_ok (show Reading.ofExcept _ s₁ = .ok size s₁ from rfl)]
    rw [← hahead] at hsize
    exact readWhole_ne_headerCut (mt hreach.runsOut.mp hfault) hsize expected found

end Header
end Correlator
