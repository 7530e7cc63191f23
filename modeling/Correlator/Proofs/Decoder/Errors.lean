import Correlator.Proofs.Decoder.Beside
import Correlator.Proofs.Decoder.Refusal
import Correlator.Proofs.Decoder.Turns
import Correlator.Proofs.Header.Failures
import Correlator.Proofs.Header.Written

/-!
# The errors of a decoder

With channels a spectrum is always long enough to be measured, so nothing but the bytes or the
stream can be wrong.  Without channels a spectrum is one sample, and any visibility that would
be measured ends the decoding; `errors_of_header` says so for every call that can be made.
-/

namespace Correlator

namespace Setup

variable {s : Setup} {v : Visibility} {reason : DecodeError}

theorem measure_of_no_channels (hchannels : s.channels = 0)
    (hsamples : v.spectrum.length = s.channels + 1) : s.measure v = .error (.tooShort 1) := by
  rw [hchannels] at hsamples
  unfold measure
  split
  · obtain ⟨sample, hspectrum⟩ := List.length_eq_one_iff.mp hsamples
    rw [hspectrum]
    rfl
  · rw [search_eq_none (by omega), hsamples]

/-- Without channels just those visibilities are refused that would be measured. -/
theorem judgeVisibility_eq_error_iff (hchannels : s.channels = 0)
    (hsamples : v.spectrum.length = s.channels + 1) (slice : Int32) :
    s.judgeVisibility slice v = .error reason ↔
      reason = .spectrum (.tooShort 1) ∧ v.isFinite = true ∧
        (v.pair.isAuto = false ∨ s.settings.autos = true) := by
  unfold judgeVisibility
  rw [measure_of_no_channels hchannels hsamples]
  cases v.pair.isAuto <;> cases s.settings.autos <;> cases v.isFinite <;> simp [eq_comm]

end Setup

namespace Decoder

variable {d : Decoder} {reason : DecodeError}

theorem next_eq_error_iff :
    d.next.result = .error reason ↔
      d.finished = false ∧ ∃ tape, d.setup.slice? { source := d.source } = .error reason tape := by
  constructor
  · intro h
    cases hd : d.finished with
    | true =>
      rw [next_of_finished hd] at h
      cases h
    | false =>
      refine ⟨rfl, ?_⟩
      rw [next_eq hd] at h
      rcases hslice : d.setup.slice? { source := d.source } with ⟨_ | found, tape⟩ | ⟨reason', tape⟩
      · rw [hslice] at h
        cases h
      · rw [hslice] at h
        cases h
      · rw [hslice] at h
        cases h
        exact ⟨tape, rfl⟩
  · rintro ⟨hd, tape, hslice⟩
    rw [next_eq hd, hslice]
    rfl

theorem setup_through (d : Decoder) (turns : List Turn) : (d.through turns).setup = d.setup := by
  induction turns generalizing d with
  | nil => rfl
  | cons t turns ih =>
    rw [through, ih, (d.turn_eq t).2, setup_next]
    rfl

theorem isRunError_of_next (hchannels : 0 < d.setup.channels) (h : d.next.result = .error reason) :
    reason.isRunError = true := by
  obtain ⟨-, tape, hslice⟩ := next_eq_error_iff.mp h
  rcases Setup.slice_eq_error hslice with hplain | ⟨slice, v, hcomes, hjudge⟩
  · exact hplain
  · rw [Setup.judgeVisibility_eq slice hchannels hcomes.length_spectrum] at hjudge
    cases hjudge

theorem tooShort_of_next (hchannels : d.setup.channels = 0) (h : d.next.result = .error reason) :
    reason.isRunError = true ∨ reason = .spectrum (.tooShort 1) := by
  obtain ⟨-, tape, hslice⟩ := next_eq_error_iff.mp h
  rcases Setup.slice_eq_error hslice with hplain | ⟨slice, v, hcomes, hjudge⟩
  · exact .inl hplain
  · rw [Setup.judgeVisibility_eq_error_iff hchannels hcomes.length_spectrum] at hjudge
    exact .inr hjudge.1

/-- Without channels, the error that is not about the bytes or the stream says that decoding has
come to a visibility that would be measured. -/
theorem next_eq_tooShort_iff (hchannels : d.setup.channels = 0) :
    d.next.result = .error (.spectrum (.tooShort 1)) ↔
      d.finished = false ∧ ∃ slice v, d.setup.ComesTo slice d.source.ahead v ∧
        v.isFinite = true ∧ (v.pair.isAuto = false ∨ d.setup.settings.autos = true) := by
  rw [next_eq_error_iff]
  constructor
  · rintro ⟨hd, tape, hslice⟩
    rcases Setup.slice_eq_error hslice with hplain | ⟨slice, v, hcomes, hjudge⟩
    · cases hplain
    · rw [Setup.judgeVisibility_eq_error_iff hchannels hcomes.length_spectrum] at hjudge
      exact ⟨hd, slice, v, hcomes, hjudge.2⟩
  · rintro ⟨hd, slice, v, hcomes, hmeasured⟩
    have hjudge := (Setup.judgeVisibility_eq_error_iff hchannels hcomes.length_spectrum slice).mpr
      ⟨rfl, hmeasured⟩
    exact ⟨hd, Setup.slice_of_comesTo hcomes hjudge⟩

/-- Behind a header that reads, whatever the settings, the stream and the calls before: with
channels, every error is about the bytes or the stream.  Without channels, which is what a
number below one declares, there is one more, and it is the answer just when decoding comes to
a visibility that is finite and is a cross-correlation or one of the auto-correlations that
were asked for. -/
theorem errors_of_header {bytes : List UInt8} {header : Header}
    (hheader : Header.ofBytes bytes = .ok header) (settings : Settings) (source : Source)
    (transform : Transform) (turns : List Turn) (last : Turn) :
    let d := ((start header settings source transform).through turns).meddled last.meddle
    let verdict := (d.serve last.request).1.verdict
    (header.channels = 0 ↔ (Stored.field Int32 bytes 44).toInt ≤ 0) ∧
    (0 < header.channels → ∀ reason, verdict = .error reason → reason.isRunError = true) ∧
    (header.channels = 0 →
      (∀ reason, verdict = .error reason →
        reason.isRunError = true ∨ reason = .spectrum (.tooShort 1)) ∧
      (verdict = .error (.spectrum (.tooShort 1)) ↔
        d.finished = false ∧ ∃ slice v, d.setup.ComesTo slice d.source.ahead v ∧
          v.isFinite = true ∧ (v.pair.isAuto = false ∨ settings.autos = true))) := by
  intro d verdict
  have hsetup : d.setup = ⟨header.channels, settings, transform⟩ :=
    (start header settings source transform).setup_through turns
  have hverdict : verdict = d.next.result := (d.serve_eq last.request).1
  rw [hverdict]
  refine ⟨?_, fun hpos reason h => ?_, fun hzero => ?_⟩
  · rw [Header.channels_of_ofBytes hheader]
    omega
  · exact isRunError_of_next (by rw [hsetup]; exact hpos) h
  · have hchannels : d.setup.channels = 0 := by rw [hsetup]; exact hzero
    have hsettings : d.setup.settings = settings := by rw [hsetup]
    rw [← hsettings]
    exact ⟨fun _ => tooShort_of_next hchannels, next_eq_tooShort_iff hchannels⟩

/-- A header that declares minus three channels, and a run with two cross-correlations.  The
first is a NaN and is skipped; the second is finite, and that is the end. -/
theorem errors_of_negative_channels :
    let f : Header.Fields := { experiment := "N24L1", channels := -3 }
    let nan : Visibility := ⟨1, ⟨1, 2⟩, ⟨0, 0, 0⟩, [⟨⟨0x7FC00000⟩, ⟨0⟩⟩]⟩
    let finite : Visibility := ⟨1, ⟨1, 3⟩, ⟨0, 0, 0⟩, [⟨⟨0⟩, ⟨0⟩⟩]⟩
    let run : Run := ⟨5, [], [], [nan, finite]⟩
    let source : Source := .ofBytes run.encode
    ∃ header, Header.ofBytes f.encode = .ok header ∧ header.channels = 0 ∧
      ((start header {} source).serve .item).1.verdict = .error (.spectrum (.tooShort 1)) := by
  intro f nan finite run source
  have hfields : f.WellFormed :=
    ⟨by decide, by decide, by decide, fun _ hnames => by cases hnames⟩
  obtain ⟨header, hheader, -, hchannels⟩ := hfields.ofBytes_encode []
  rw [List.append_nil] at hheader
  have hzero : header.channels = 0 := hchannels
  have herrors := errors_of_header hheader {} source .inverse [] ⟨id, .item⟩
  have hrun : run.WellFormed 0 := ⟨by decide, by decide, by decide, by simp [run], by decide⟩
  obtain ⟨hwhole, hcounts, -⟩ := hrun.encode_append []
  rw [List.append_nil] at hwhole hcounts
  have hrecords : run.encode.drop (Stored.width RunCounts)
      = nan.encode ++ (finite.encode ++ []) := by
    decide +kernel
  have hcomes : Setup.ComesTo { channels := 0 } 5 run.encode finite := by
    apply Setup.ComesTo.here hwhole hcounts rfl
    rw [hrecords]
    have hskipped : Setup.judgeVisibility { channels := 0 } 5 nan
        = .ok [.skipped 5 ⟨⟨1, 2⟩, ⟨0, 0, 0⟩⟩] := rfl
    exact ⟨[], _, [], _, rfl, rfl, .later ((Visibility.spells rfl).parse _) hskipped
      (.here ((Visibility.spells rfl).parse _))⟩
  have hahead : Setup.ComesTo { channels := header.channels } 5 source.ahead finite := by
    rw [hzero, (Source.serves_ofBytes _).ahead]
    exact hcomes
  exact ⟨header, hheader, hzero,
    (herrors.2.2 hzero).2.mpr ⟨rfl, 5, finite, hahead, by decide, .inl rfl⟩⟩

end Decoder
end Correlator
