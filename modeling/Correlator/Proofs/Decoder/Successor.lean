import Correlator.Proofs.Decoder.Step

/-!
# What follows a complete slice

A slice whose runs have all been decoded is handed out if the header behind it, of
another slice, declares no negative count.  Otherwise the slice is lost with that header.
-/

namespace Correlator
namespace Decoder

variable {d : Decoder} {number : Int32} {runs : List Run} {rest : List UInt8}

/-- Exactly when a complete slice is handed out, and what is then the case: the tally
holds all its runs, the slice is counted, and the stream stands at the header of the
next slice.  A negative count in that header fails this very call. -/
theorem nextInto_complete_slice (tally : Tally) (hd : d.finished = false) (hne : runs ≠ [])
    (hruns : d.setup.RunsAt number d.source.ahead runs rest)
    (hrest : Stored.width RunCounts ≤ rest.length)
    (hnumber : (Stored.decode rest : RunCounts).slice ≠ number) :
    let next : RunCounts := Stored.decode rest
    let step := (d.nextInto tally).1
    (step.result = .ok (some number) ↔ next.negative? = none ∧ d.source.seekFault = none) ∧
    (step.result = .ok (some number) →
      (d.nextInto tally).2 = runs.foldl (Tally.addRun d.setup) tally.clear ∧
        step.decoder.slices = d.slices + 1 ∧ step.decoder.finished = false ∧
          d.source.Reaches rest step.decoder.source) ∧
    (∀ kind count, next.negative? = some (kind, count) →
      step.result = .error (.recordCount next.slice kind count) ∧
        step.decoder.slices = d.slices ∧ step.decoder.finished = true) := by
  intro next step
  have hstep : step = d.next := rfl
  have hheader : RunHeader.ofBytes (rest.take (Stored.width RunCounts)) = _ :=
    (congrArg RunHeader.ofCounts (Stored.decode_take hrest)).trans (RunCounts.ofCounts_eq next)
  cases hnegative : next.negative? with
  | some pair =>
    obtain ⟨kind, count⟩ := pair
    simp only [hnegative] at hheader
    obtain ⟨source, events, hnext⟩ := fails_of_corrupt hd hne hruns hrest hheader
    rw [hstep, hnext]
    simp
  | none =>
    simp only [hnegative] at hheader
    cases hseek : d.source.seekFault with
    | some why =>
      obtain ⟨source, events, hnext⟩ := fails_of_stuck hd hne hruns hrest hheader hnumber hseek
      rw [hstep, hnext]
      simp
    | none =>
      obtain ⟨source, hreach, hnext⟩ := next_of_other hd hne hruns hrest hheader hnumber hseek
      have hfilled : (d.nextInto tally).2 = runs.foldl (Tally.addRun d.setup) tally.clear := by
        have hevents : d.next.events = d.setup.sliceEvents runs ++ Setup.leftOver 0 := by
          rw [hnext, Setup.sliceEvents, blockNumber_eq hne hruns.slice_eq]
          simp [Setup.leftOver]
        show (if d.finished then tally else tally.clear.enterAll d.next.events) = _
        rw [hd, hevents, Tally.enterAll_slice]
        rfl
      rw [hstep, hnext]
      simpa [hd] using ⟨hfilled, hreach⟩

/-- Slice 5 with a sound header of slice 6 behind it, in which 3 records are declared
that are not there: slice 5 is handed out all the same. -/
theorem nextInto_of_sound_successor :
    let rest := Stored.encode (⟨6, 3, 0, 0⟩ : RunCounts)
    let d : Decoder :=
      { setup := { channels := 4 }, stations := 2, source := .ofBytes (Run.encode ⟨5, [], [], []⟩ ++ rest) }
    (d.nextInto (.empty 2)).1.result = .ok (some 5) ∧
      (d.nextInto (.empty 2)).1.decoder.slices = 1 ∧
        d.source.Reaches rest (d.nextInto (.empty 2)).1.decoder.source := by
  intro rest d
  have hrun : d.setup.RunAt d.source.ahead ⟨5, [], [], []⟩ rest :=
    Setup.runAt_ofBytes (by decide) ⟨by decide, by decide, by decide, by simp, by simp⟩ rest
  obtain ⟨hhanded, hfull, -⟩ := nextInto_complete_slice (.empty 2) rfl (List.cons_ne_nil _ _)
    (.cons hrun rfl (.nil rest)) (by decide) (by decide)
  have hresult := hhanded.mpr ⟨by decide, rfl⟩
  obtain ⟨-, hslices, -, hreach⟩ := hfull hresult
  exact ⟨hresult, hslices, hreach⟩

/-- A complete slice can be lost to what follows it: slice 5 is decoded, but the header
of slice 6 declares -1 visibilities, and so the call fails without slice 5. -/
theorem complete_slice_lost :
    let rest := Stored.encode (⟨6, -1, 0, 0⟩ : RunCounts)
    let d : Decoder :=
      { setup := { channels := 4 }, stations := 2, source := .ofBytes (Run.encode ⟨5, [], [], []⟩ ++ rest) }
    d.finished = false ∧ d.setup.RunsAt 5 d.source.ahead [⟨5, [], [], []⟩] rest ∧
      Stored.width RunCounts ≤ rest.length ∧ (Stored.decode rest : RunCounts).slice ≠ 5 ∧
        d.next.result = .error (.recordCount 6 .visibility (-1)) ∧ d.next.decoder.slices = 0 := by
  intro rest d
  have hrun : d.setup.RunAt d.source.ahead ⟨5, [], [], []⟩ rest :=
    Setup.runAt_ofBytes (by decide) ⟨by decide, by decide, by decide, by simp, by simp⟩ rest
  have hruns : d.setup.RunsAt 5 d.source.ahead [⟨5, [], [], []⟩] rest := .cons hrun rfl (.nil rest)
  have hheader : RunHeader.ofBytes (rest.take (Stored.width RunCounts))
      = .error (.recordCount 6 .visibility (-1)) := rfl
  obtain ⟨source, events, hnext⟩ :=
    fails_of_corrupt rfl (List.cons_ne_nil _ _) hruns (by decide) hheader
  exact ⟨rfl, hruns, by decide, by decide, by rw [hnext], by rw [hnext]⟩

end Decoder
end Correlator
