import Correlator.Proofs.Decoder.Trail
import Correlator.Proofs.Recording.RoundTrip

/-!
# Recordings that were cut short

A recording that ends too early is decoded up to the last complete run.  Whether that is
an end or a failure depends on how much of the next run is there.
-/

namespace Correlator

/-- The cut runs between two runs of the same slice, or through the second of them. -/
def Cut.Continues (c : Cut) : Prop :=
  ∃ next, c.next? = some next ∧ c.whole.getLast?.map Run.slice = some next.slice

namespace Cut

variable {runs : List Run} {bytes n : Nat} {block : List Run}

/-- The blocks before a cut are blocks of all runs, but for the last of them when its slice
goes on behind the cut. -/
theorem getElem?_blocks_whole (hblock : (blocks (after runs bytes).whole)[n]? = some block)
    (hkept : n + 1 < (blocks (after runs bytes).whole).length ∨ ¬ (after runs bytes).Continues) :
    (blocks runs)[n]? = some block := by
  obtain ⟨others, hsplit, hhead⟩ := exists_others runs bytes
  have hn := (List.getElem?_eq_some_iff.mp hblock).1
  rw [hsplit]
  rcases hkept with hinner | hends
  · obtain ⟨rest, hrest⟩ := dropLast_blocks_prefix (after runs bytes).whole others
    rw [← hrest, List.getElem?_append_left (by rw [List.length_dropLast]; omega),
      List.getElem?_dropLast, if_pos (by omega), hblock]
  · have hother : ∀ a ∈ (after runs bytes).whole.getLast?, ∀ b ∈ others.head?,
        a.slice ≠ b.slice := by
      intro a ha b hb heq
      rw [hhead] at hb
      exact hends ⟨b, hb, by rw [ha, Option.map_some, heq]⟩
    rw [blocks_append_of_ne hother, List.getElem?_append_left hn, hblock]

theorem block_of_clean {left : Nat}
    (h : (Transcript.outcomes ⟨(after runs bytes).whole, .clean left⟩)[n]? = some (.ok block)) :
    (blocks runs)[n]? = some block ∨
      (after runs bytes).Continues ∧ n + 1 = (blocks (after runs bytes).whole).length := by
  have hblock : (blocks (after runs bytes).whole)[n]? = some block := by
    simpa [Transcript.outcomes] using h
  have hn := (List.getElem?_eq_some_iff.mp hblock).1
  by_cases hcontinues : (after runs bytes).Continues
  · by_cases hlast : n + 1 = (blocks (after runs bytes).whole).length
    · exact .inr ⟨hcontinues, hlast⟩
    · exact .inl (getElem?_blocks_whole hblock (.inl (by omega)))
  · exact .inl (getElem?_blocks_whole hblock (.inr hcontinues))

theorem block_of_broken {next : Run} {reason : DecodeError}
    (hnext : (after runs bytes).next? = some next)
    (h : (Transcript.outcomes ⟨(after runs bytes).whole, .broken next.slice reason⟩)[n]?
      = some (.ok block)) :
    (blocks runs)[n]? = some block := by
  simp only [Transcript.outcomes, List.getElem?_append] at h
  by_cases hsame : (after runs bytes).whole.getLast?.map Run.slice = some next.slice
  · rw [if_pos hsame] at h
    split at h
    · rename_i hn
      rw [List.length_map, List.length_dropLast] at hn
      rw [List.getElem?_map, List.getElem?_dropLast, if_pos hn] at h
      exact getElem?_blocks_whole (by simpa using h) (.inl (by omega))
    · simpa using List.mem_of_getElem? h
  · rw [if_neg hsame] at h
    split at h
    · refine getElem?_blocks_whole (by simpa using h) (.inr ?_)
      rintro ⟨next', hnext', hcontinues⟩
      rw [hnext, Option.some.injEq] at hnext'
      subst hnext'
      exact hsame hcontinues
    · simpa using List.mem_of_getElem? h

end Cut

theorem Decoder.Ready.answer_eq_some {d : Decoder} {t : Transcript} (h : d.Ready t) {n : Nat}
    {slice : Slice} :
    d.answer n = .ok (some slice) ↔
      ∃ block, t.outcomes[n]? = some (.ok block) ∧ Slice.ofRuns d.setup d.stations block = slice := by
  rw [Decoder.answer_of_ready h]
  rcases t.outcomes[n]? with _ | reason | block <;> simp [Slice.answer]

namespace Recording

/-- How a recording that was cut behind its header is decoded.  With less than a header
left, it is decoded as if the whole runs were all there is, and what is left is a line in
the log.  Otherwise decoding fails at the first piece of the next run that is not all
there; the slice before is lost if the next run belongs to it.  Either way, the slices
that are found are those of the whole recording, but for the last one when the cut runs
between two of its runs. -/
theorem answer_of_cut (r : Recording) (h : r.WellFormed) (settings : Settings)
    (transform : Transform) {length : Nat} (hlength : r.header.encode.length ≤ length)
    {source : Source} (hsource : source.Serves (r.encode.take length)) :
    let cut := Cut.after r.runs (length - r.header.encode.length)
    ∃ d whole full, Decoder.ofStream settings source transform = .ok d ∧
      Decoder.ofStream settings (.ofBytes (encode ⟨r.header, cut.whole⟩)) transform = .ok whole ∧
      Decoder.ofStream settings (.ofBytes r.encode) transform = .ok full ∧
      (cut.left < Stored.width RunCounts →
        (∀ n, d.answer n = whole.answer n) ∧
        (∀ n, d.answer n
          = Slice.answer d.setup d.stations ((blocks cut.whole).map Except.ok)[n]?) ∧
        d.log = whole.log ++ (Setup.leftOver cut.left).filterMap Event.line?) ∧
      (Stored.width RunCounts ≤ cut.left →
        ∃ next crossing, cut.next? = some next ∧
          (next.pieces d.setup.channels).crossing? (cut.left - Stored.width RunCounts)
            = some crossing ∧
          crossing.found < crossing.width ∧
          ∀ n, d.answer n = Slice.answer d.setup d.stations
            ((if cut.whole.getLast?.map Run.slice = some next.slice
                then (blocks cut.whole).dropLast else blocks cut.whole).map Except.ok
              ++ [.error (.endOfStream crossing.piece crossing.width crossing.found)])[n]?) ∧
      ∀ n slice, d.answer n = .ok (some slice) →
        full.answer n = .ok (some slice) ∨
          cut.left < Stored.width RunCounts ∧ cut.Continues ∧
            n + 1 = (blocks cut.whole).length := by
  intro cut
  obtain ⟨stations, hdecoder⟩ := h.exists_decoder settings transform
  obtain ⟨others, hsplit, -⟩ := Cut.exists_others r.runs (length - r.header.encode.length)
  have hruns : ∀ run ∈ cut.whole, run.WellFormed r.header.channels.toInt.toNat :=
    fun run hrun => h.runs run (by rw [hsplit]; exact List.mem_append_left others hrun)
  obtain ⟨whole, hwhole, hwholeSetup, hwholeStations, hwholeReady⟩ :=
    hdecoder (Source.serves_ofBytes (encode ⟨r.header, cut.whole⟩))
      (Transcript.reads_flatMap_encode hruns)
  obtain ⟨full, hfull, hfullSetup, hfullStations, hfullReady⟩ :=
    hdecoder (Source.serves_ofBytes r.encode) (Transcript.reads_flatMap_encode h.runs)
  have hfound : ∀ {n block}, (blocks r.runs)[n]? = some block →
      full.answer n = .ok (some (.ofRuns (r.setup settings transform) stations block)) := by
    intro n block hblock
    rw [hfullReady.answer_eq_some, hfullSetup, hfullStations]
    exact ⟨block, by rw [Transcript.outcomes, List.getElem?_map, hblock]; rfl, rfl⟩
  have htake : r.encode.take length = r.header.encode
      ++ (r.runs.flatMap Run.encode).take (length - r.header.encode.length) := by
    rw [encode, List.take_append, List.take_of_length_le hlength]
  rw [htake] at hsource
  obtain ⟨hshort, hlong⟩ := Transcript.reads_cut h.runs (length - r.header.encode.length)
  rcases Nat.lt_or_ge cut.left (Stored.width RunCounts) with hleft | hleft
  -- The transcript differs from that of the whole runs in the bytes left over only, and
  -- those are seen in the log but in no answer.
  · obtain ⟨d, hd, hsetup, hstations, hready⟩ := hdecoder hsource (hshort hleft)
    have hanswer := Decoder.answer_of_ready hready
    refine ⟨d, whole, full, hd, hwhole, hfull, fun _ => ⟨fun n => ?_, hanswer, ?_⟩,
      fun hlarge => absurd hleft (Nat.not_lt.mpr hlarge), fun n slice hslice => ?_⟩
    · rw [hanswer, Decoder.answer_of_ready hwholeReady, hsetup, hstations, hwholeSetup,
        hwholeStations]
      rfl
    · have hnone : Setup.leftOver 0 = [] := rfl
      rw [Decoder.log, Decoder.log, Decoder.trail_of_ready hready,
        Decoder.trail_of_ready hwholeReady, hsetup, hwholeSetup, hnone, List.append_nil,
        List.filterMap_append]
    · obtain ⟨block, hblock, rfl⟩ := hready.answer_eq_some.mp hslice
      rw [hsetup, hstations]
      rcases Cut.block_of_clean hblock with hwholeBlock | hlast
      · exact .inl (hfound hwholeBlock)
      · exact .inr ⟨hleft, hlast⟩
  · obtain ⟨next, crossing, hnext, hcrossing, hreads⟩ := hlong hleft
    obtain ⟨d, hd, hsetup, hstations, hready⟩ := hdecoder hsource hreads
    refine ⟨d, whole, full, hd, hwhole, hfull,
      fun hsmall => absurd hsmall (Nat.not_lt.mpr hleft), fun _ => ⟨next, crossing, hnext, ?_,
      Pieces.found_lt_of_crossing hcrossing, Decoder.answer_of_ready hready⟩,
      fun n slice hslice => ?_⟩
    · rw [hsetup]
      exact hcrossing
    · obtain ⟨block, hblock, rfl⟩ := hready.answer_eq_some.mp hslice
      rw [hsetup, hstations]
      exact .inl (hfound (Cut.block_of_broken hnext hblock))

/-- Two runs of slice 5, the second of which is cut after 10 bytes of its coordinates: all
of slice 5 is lost. -/
theorem answer_of_cut_uvw :
    let u : Uvw := ⟨1, 0, ⟨1⟩, ⟨2⟩, ⟨3⟩⟩
    let r : Recording := ⟨{ experiment := "N24L1", channels := 1 },
      [⟨5, [], [], []⟩, ⟨5, [u], [], []⟩, ⟨6, [], [], []⟩]⟩
    r.WellFormed ∧ r.header.encode.length ≤ 106 ∧
      (Source.ofBytes (r.encode.take 106)).Serves (r.encode.take 106) ∧
        ∃ d, Decoder.ofStream {} (.ofBytes (r.encode.take 106)) = .ok d ∧
          d.answer 0 = .error (.endOfStream .uvw 32 10) ∧ d.answer 1 = .ok none := by
  intro u r
  have hruns : ∀ run ∈ r.runs, run.WellFormed 1 := by
    intro run hrun
    simp only [r, List.mem_cons, List.not_mem_nil, or_false] at hrun
    rcases hrun with rfl | rfl | rfl <;>
      exact ⟨by decide, by decide, by decide, by simp, by simp⟩
  have hr : r.WellFormed := ⟨⟨by decide, by decide, by decide, by simp [r]⟩, by decide, hruns⟩
  have hlength : r.header.encode.length = 64 := r.header.length_encode
  have hserves := Source.serves_ofBytes (r.encode.take 106)
  obtain ⟨d, -, -, hd, -, -, -, hlong, -⟩ :=
    answer_of_cut r hr {} .inverse (show r.header.encode.length ≤ 106 by omega) hserves
  rw [hlength] at hlong
  obtain ⟨next, crossing, hnext, hcrossing, -, hanswer⟩ := hlong (by decide)
  obtain rfl : ⟨5, [u], [], []⟩ = next := Option.some.inj hnext
  obtain rfl : ⟨.uvw, 32, 10⟩ = crossing := Option.some.inj hcrossing
  have hwhole : (Cut.after r.runs (106 - 64)).whole = [⟨5, [], [], []⟩] := rfl
  have hlost : (blocks [⟨5, [], [], []⟩]).dropLast = [] := rfl
  simp only [hwhole, List.getLast?_singleton, Option.map_some, if_true, hlost] at hanswer
  exact ⟨hr, by omega, hserves, d, hd, hanswer 0, hanswer 1⟩

end Recording
end Correlator
