import Correlator.Proofs.Transcript.Basic

/-!
# Transcripts of what was written

The transcript of runs that were written is these runs.  If the bytes are cut short
anywhere, it is the runs before the cut, and the end says what the cut runs through.
-/

namespace Correlator

structure Cut where
  /-- The runs that lie wholly before the cut. -/
  whole : List Run
  /-- How many bytes there are between them and the cut. -/
  left : Nat
  /-- The run behind them, if there is one. -/
  next? : Option Run

/-- Cut after a number of bytes; past the last run there is nothing to cut. -/
def Cut.after : List Run → Nat → Cut
  | [], _ => ⟨[], 0, none⟩
  | run :: runs, bytes =>
    if bytes < run.encode.length then ⟨[], bytes, some run⟩
    else
      let cut := after runs (bytes - run.encode.length)
      { cut with whole := run :: cut.whole }

namespace Cut

theorem exists_others (runs : List Run) (bytes : Nat) :
    ∃ others, runs = (after runs bytes).whole ++ others ∧
      others.head? = (after runs bytes).next? := by
  induction runs generalizing bytes with
  | nil => exact ⟨[], rfl, rfl⟩
  | cons run runs ih =>
    rw [after]
    split
    · exact ⟨run :: runs, rfl, rfl⟩
    · obtain ⟨others, hsplit, hhead⟩ := ih (bytes - run.encode.length)
      exact ⟨others, congrArg (run :: ·) hsplit, hhead⟩

/-- A cut lies behind the whole runs and `left` bytes, within the next run. -/
theorem length_after (runs : List Run) {bytes : Nat}
    (h : bytes ≤ (runs.flatMap Run.encode).length) :
    ((after runs bytes).whole.flatMap Run.encode).length + (after runs bytes).left = bytes ∧
      ∀ next ∈ (after runs bytes).next?, (after runs bytes).left < next.encode.length := by
  induction runs generalizing bytes with
  | nil =>
    have hzero : bytes = 0 := by simpa using h
    exact ⟨hzero.symm, by simp [after]⟩
  | cons run runs ih =>
    rw [after]
    split
    · rename_i hbytes
      exact ⟨by simp, by simpa using hbytes⟩
    · rw [List.flatMap_cons, List.length_append] at h
      obtain ⟨hlength, hnext⟩ := ih (show bytes - run.encode.length ≤ _ by omega)
      refine ⟨?_, hnext⟩
      simp only [List.flatMap_cons, List.length_append]
      omega

end Cut

namespace Transcript

variable {channels : Nat} {run : Run}

theorem reads_encode (hrun : run.WellFormed channels) {rest : List UInt8} {runs : List Run}
    {ending : Ending} (h : Reads channels rest ⟨runs, ending⟩) :
    Reads channels (run.encode ++ rest) ⟨run :: runs, ending⟩ := by
  obtain ⟨hwhole, hheader, hrecords⟩ := hrun.encode_append rest
  exact .run hwhole hheader hrecords h

theorem reads_take (hrun : run.WellFormed channels) {left : Nat}
    (hheader : Stored.width RunCounts ≤ left) (hleft : left < run.encode.length) :
    ∃ crossing, (run.pieces channels).crossing? (left - Stored.width RunCounts) = some crossing ∧
      Reads channels (run.encode.take left) ⟨[], .broken run.slice crossing.error⟩ := by
  have hlength := run.length_encode
  obtain ⟨crossing, hcrossing, hcut⟩ :=
    (Run.spells_records hrun).cut (left - Stored.width RunCounts) (by omega)
  have hbytes : run.encode.take left
      = Stored.encode run.counts ++ run.encodeRecords.take (left - Stored.width RunCounts) := by
    rw [Run.encode_eq, List.take_append, List.take_of_length_le (by rw [Stored.length_encode]; omega),
      Stored.length_encode]
  have hcounts : RunHeader.ofBytes ((run.encode.take left).take (Stored.width RunCounts))
      = .ok run.header := by
    rw [hbytes, List.take_left' (Stored.length_encode _), hrun.ofBytes_counts]
  have hrecords : Run.parser channels run.header
      ((run.encode.take left).drop (Stored.width RunCounts)) = .error crossing.error := by
    rw [hbytes, List.drop_left' (Stored.length_encode _), hcut]
  refine ⟨crossing, hcrossing, .broken ?_ hcounts hrecords⟩
  rw [List.length_take]
  omega

theorem reads_flatMap_encode {runs : List Run} (hruns : ∀ r ∈ runs, r.WellFormed channels) :
    Reads channels (runs.flatMap Run.encode) ⟨runs, .clean 0⟩ := by
  induction runs with
  | nil => exact .clean (by decide)
  | cons run runs ih =>
    exact reads_encode (hruns run List.mem_cons_self)
      (ih fun r hr => hruns r (List.mem_cons_of_mem run hr))

/-- Cut runs read back as those before the cut.  What is left of the next run is ignored
if it is less than a header, and otherwise fails at the first piece that is not all there. -/
theorem reads_cut {runs : List Run} (hruns : ∀ r ∈ runs, r.WellFormed channels) (bytes : Nat) :
    let cut := Cut.after runs bytes
    (cut.left < Stored.width RunCounts →
      Reads channels ((runs.flatMap Run.encode).take bytes) ⟨cut.whole, .clean cut.left⟩) ∧
    (Stored.width RunCounts ≤ cut.left →
      ∃ next crossing, cut.next? = some next ∧
        (next.pieces channels).crossing? (cut.left - Stored.width RunCounts) = some crossing ∧
        Reads channels ((runs.flatMap Run.encode).take bytes)
          ⟨cut.whole, .broken next.slice crossing.error⟩) := by
  induction runs generalizing bytes with
  | nil =>
    refine ⟨fun _ => ?_, fun hleft => ?_⟩
    · rw [List.flatMap_nil, List.take_nil]
      exact .clean (by decide)
    · exact absurd (show Stored.width RunCounts ≤ 0 from hleft) (by decide)
  | cons run runs ih =>
    have hrun := hruns run List.mem_cons_self
    rw [List.flatMap_cons, Cut.after]
    by_cases hbytes : bytes < run.encode.length
    · rw [if_pos hbytes, List.take_append_of_le_length (by omega)]
      refine ⟨fun hleft => ?_, fun hleft => ?_⟩
      · have hlength : (run.encode.take bytes).length = bytes := by
          rw [List.length_take]
          omega
        have hclean : Reads channels (run.encode.take bytes)
            ⟨[], .clean (run.encode.take bytes).length⟩ := .clean (by rwa [hlength])
        rwa [hlength] at hclean
      · obtain ⟨crossing, hcrossing, hreads⟩ := reads_take hrun hleft hbytes
        exact ⟨run, crossing, rfl, hcrossing, hreads⟩
    · obtain ⟨hshort, hlong⟩ := ih (fun r hr => hruns r (List.mem_cons_of_mem run hr))
        (bytes - run.encode.length)
      rw [if_neg hbytes, List.take_append, List.take_of_length_le (by omega)]
      refine ⟨fun hleft => reads_encode hrun (hshort hleft), fun hleft => ?_⟩
      obtain ⟨next, crossing, hnext, hcrossing, hreads⟩ := hlong hleft
      exact ⟨next, crossing, hnext, hcrossing, reads_encode hrun hreads⟩

end Transcript
end Correlator
