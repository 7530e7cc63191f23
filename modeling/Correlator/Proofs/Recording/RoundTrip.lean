import Correlator.Proofs.Decoder.Answers
import Correlator.Proofs.Header.Written
import Correlator.Proofs.Recording.Runs
import Correlator.Proofs.Tally.Contents
import Correlator.Recording

/-!
# Recordings that were written

What was written with a sound header and sound runs is decoded again: slice by slice,
with every record where it belongs.
-/

namespace Correlator

/-- A decoder for a stream that begins with a header. -/
def Decoder.ofStream (settings : Settings) (source : Source)
    (transform : Transform := .inverse) : Except DecodeError Decoder :=
  match Header.read source with
  | .ok header source => .ok (.start header settings source transform)
  | .error reason _ => .error reason

namespace Recording

/-- What a recording must be so that it reads back: there are channels, and header and
runs are sound. -/
structure WellFormed (r : Recording) : Prop where
  header : r.header.WellFormed
  channels : 0 < r.header.channels.toInt
  runs : ∀ run ∈ r.runs, run.WellFormed r.header.channels.toInt.toNat

variable {r : Recording}

def setup (r : Recording) (settings : Settings) (transform : Transform := .inverse) : Setup :=
  ⟨r.header.channels.toInt.toNat, settings, transform⟩

/-- A stream that begins with the header of the recording is decoded with its channels,
and with room for a number of stations that does not depend on what comes behind. -/
theorem WellFormed.exists_decoder (h : r.WellFormed) (settings : Settings)
    (transform : Transform) :
    ∃ stations, ∀ {source : Source} {tail : List UInt8} {t : Transcript},
      source.Serves (r.header.encode ++ tail) →
      Transcript.Reads r.header.channels.toInt.toNat tail t →
        ∃ d, Decoder.ofStream settings source transform = .ok d ∧
          d.setup = r.setup settings transform ∧ d.stations = stations ∧ d.Ready t := by
  obtain ⟨header, hheader, -, hchannels⟩ := h.header.ofBytes_encode []
  rw [List.append_nil] at hheader
  have hpos := h.channels
  refine ⟨(Decoder.start header settings (.ofBytes [])).stations, ?_⟩
  intro source tail t hsource hreads
  obtain ⟨rest, hread, hreach⟩ := Header.read_written h.header.size hheader hsource
  rw [← hchannels, ← hreach.ahead] at hreads
  refine ⟨.start header settings rest transform, by rw [Decoder.ofStream, hread], ?_, rfl, rfl, ?_, ?_, ?_,
    hreads⟩
  · rw [setup, ← hchannels]
    rfl
  · show 0 < header.channels
    omega
  · exact hreach.readFault.trans hsource.readFault
  · exact hreach.seekFault.trans hsource.seekFault

/-- A recording is decoded into one slice for each longest block of runs with the same
slice number, in their order, and then nothing.  Each slice holds all records of its
runs, with every visibility wanted. -/
theorem answer_of_encode (r : Recording) (h : r.WellFormed) (settings : Settings)
    (transform : Transform) {source : Source} (hsource : source.Serves r.encode) :
    ∃ d, Decoder.ofStream { settings with autos := true } source transform = .ok d ∧
      (∀ n block, (blocks r.runs)[n]? = some block →
        ∃ slice, d.answer n = .ok (some slice) ∧ (∀ run ∈ block, run.slice = slice.number) ∧
          slice.tally.Holds (r.setup { settings with autos := true } transform)
            (block.flatMap Run.uvws) (block.flatMap Run.occupancies)
            (block.flatMap Run.visibilities)) ∧
      ∀ n, (blocks r.runs).length ≤ n → d.answer n = .ok none := by
  obtain ⟨stations, hdecoder⟩ := h.exists_decoder { settings with autos := true } transform
  obtain ⟨d, hstream, hsetup, -, hready⟩ :=
    hdecoder hsource (Transcript.reads_flatMap_encode h.runs)
  have hanswer := Decoder.answer_of_ready hready
  refine ⟨d, hstream, fun n block hblock => ?_, fun n hn => ?_⟩
  · have hmem : block ∈ blocks r.runs := List.mem_of_getElem? hblock
    have hsamples : ∀ run ∈ block, ∀ v ∈ run.visibilities,
        v.spectrum.length = d.setup.channels + 1 := by
      intro run hrun v hv
      have hruns : run ∈ r.runs := by
        rw [← flatten_blocks r.runs]
        exact List.mem_flatten_of_mem hmem hrun
      rw [(h.runs run hruns).samples v hv, hsetup]
      rfl
    refine ⟨.ofRuns d.setup d.stations block, ?_, (of_mem_blocks hmem).2, ?_⟩
    · rw [hanswer, Transcript.outcomes, List.getElem?_map, hblock]
      rfl
    · rw [← hsetup]
      exact Slice.holds_ofRuns hready.channels d.stations hsamples
  · rw [hanswer, Transcript.outcomes, List.getElem?_map, List.getElem?_eq_none hn]
    rfl

/-- Slice 5 in two runs and slice 6 in one.  The coordinates of station 300 are left out,
and the spectrum with an infinity is skipped. -/
theorem answer_of_three_runs :
    let u : Uvw := ⟨1, 0, ⟨1⟩, ⟨2⟩, ⟨3⟩⟩
    let v : Visibility := ⟨7, ⟨0, 1⟩, ⟨2, 1, 3⟩, [⟨⟨0x7F800000⟩, ⟨0⟩⟩, ⟨⟨0⟩, ⟨0⟩⟩]⟩
    let r : Recording := ⟨{ experiment := "N24L1", channels := 1 },
      [⟨5, [u], [], []⟩, ⟨5, [{ u with station := 300 }], [], [v]⟩, ⟨6, [], [], []⟩]⟩
    r.WellFormed ∧ (Source.ofBytes r.encode).Serves r.encode ∧
      ∃ d slice, Decoder.ofStream { autos := true } (.ofBytes r.encode) = .ok d ∧
        d.answer 0 = .ok (some slice) ∧ slice.number = 5 ∧ slice.tally.uvws.under 1 = [u] ∧
          slice.tally.skipped = [⟨⟨0, 1⟩, ⟨2, 1, 3⟩⟩] ∧ d.answer 2 = .ok none := by
  intro u v r
  have hruns : ∀ run ∈ r.runs, run.WellFormed 1 := by
    intro run hrun
    simp only [r, List.mem_cons, List.not_mem_nil, or_false] at hrun
    rcases hrun with rfl | rfl | rfl <;>
      exact ⟨by decide, by decide, by decide, by simp, by simp [v]⟩
  have hr : r.WellFormed := ⟨⟨by decide, by decide, by decide, by simp [r]⟩, by decide, hruns⟩
  have hserves := Source.serves_ofBytes r.encode
  obtain ⟨d, hd, hslices, hend⟩ := answer_of_encode r hr {} .inverse hserves
  obtain ⟨slice, hanswer, hnumber, hholds⟩ := hslices 0 [⟨5, [u], [], []⟩,
    ⟨5, [{ u with station := 300 }], [], [v]⟩] rfl
  refine ⟨hr, hserves, d, slice, hd, hanswer, ?_, ?_, ?_, hend 2 (by decide)⟩
  · exact (hnumber ⟨5, [u], [], []⟩ List.mem_cons_self).symm
  · have huvws := hholds.uvws 1
    simpa [u] using huvws
  · rw [hholds.skipped]
    rfl

end Recording
end Correlator
