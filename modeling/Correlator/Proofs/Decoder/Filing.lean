import Correlator.Decoder.Basic
import Correlator.Proofs.Transcript.Blocks

/-!
# What a run leaves in a tally

`Tally.addRun` files the records of a run one after the other, without events.
`enterAll_runEvents` says that entering the events of the run comes to the same.
-/

namespace Correlator

namespace Setup

variable {s : Setup}

theorem search_eq (hchannels : 0 < s.channels) :
    s.search? = some ⟨s.channels, hchannels, s.settings.guardFraction, s.transform⟩ := by
  simp only [search?, FringeSearch.plan?, dif_pos hchannels]
  rfl

theorem search_eq_none (hchannels : ¬ 0 < s.channels) : s.search? = none := by
  simp only [search?, FringeSearch.plan?, dif_neg hchannels]
  rfl

/-- With channels there are lags to search, so every spectrum of the right length is
measured. -/
theorem measure_ok {v : Visibility} (hchannels : 0 < s.channels)
    (hsamples : v.spectrum.length = s.channels + 1) : ∃ outcome, s.measure v = .ok outcome := by
  unfold measure
  split
  · rcases hspectrum : v.spectrum with _ | ⟨first, _ | ⟨second, others⟩⟩
    · simp [hspectrum] at hsamples
    · simp only [hspectrum, List.length_cons, List.length_nil] at hsamples
      omega
    · exact ⟨_, rfl⟩
  · rw [search_eq hchannels]
    simp only [FringeSearch.fringe, FringeSearch.lagFunction, hsamples, ne_eq, not_true_eq_false,
      if_false]
    exact ⟨_, rfl⟩

def uvwEvents (slice : Int32) (r : Uvw) : List Event :=
  match r.station? with
  | some station => [.uvw station r]
  | none => [.outOfRange slice r]

theorem judgeUvw_eq (slice : Int32) (r : Uvw) : judgeUvw slice r = .ok (uvwEvents slice r) := by
  unfold judgeUvw uvwEvents
  cases r.station? <;> rfl

/-- The events of a visibility; none if it cannot be measured. -/
def visibilityEvents (s : Setup) (slice : Int32) (v : Visibility) : List Event :=
  match s.judgeVisibility slice v with
  | .ok events => events
  | .error _ => []

def Accepts (s : Setup) (r : Run) : Prop :=
  ∀ v ∈ r.visibilities, s.judgeVisibility r.slice v = .ok (s.visibilityEvents r.slice v)

theorem judgeVisibility_eq {v : Visibility} (slice : Int32) (hchannels : 0 < s.channels)
    (hsamples : v.spectrum.length = s.channels + 1) :
    s.judgeVisibility slice v = .ok (s.visibilityEvents slice v) := by
  obtain ⟨outcome, hmeasure⟩ := measure_ok hchannels hsamples
  unfold visibilityEvents judgeVisibility
  rw [hmeasure]
  split
  · rfl
  · split <;> rfl

theorem accepts_of_samples {r : Run} (hchannels : 0 < s.channels)
    (hsamples : ∀ v ∈ r.visibilities, v.spectrum.length = s.channels + 1) : s.Accepts r :=
  fun v hv => judgeVisibility_eq r.slice hchannels (hsamples v hv)

/-- The events of a run, in the order of its records. -/
def runEvents (s : Setup) (r : Run) : List Event :=
  r.uvws.flatMap (uvwEvents r.slice) ++ r.occupancies.flatMap (fun o => [.occupancy o])
    ++ r.visibilities.flatMap (s.visibilityEvents r.slice)

def sliceEvents (s : Setup) (block : List Run) : List Event :=
  .opened (blockNumber block) :: block.flatMap s.runEvents

/-- The events of reaching the end of the stream with a few bytes left. -/
def leftOver (count : Nat) : List Event := if count = 0 then [] else [.leftOver count]

end Setup

namespace Tally

def addCoordinates (t : Tally) (r : Uvw) : Tally :=
  match r.station? with
  | some station => t.addUvw station r
  | none => t

/-- File what a visibility comes to.  An auto-correlation that is not asked for leaves
nothing, and a spectrum that is not finite is only noted. -/
def addVisibility (s : Setup) (t : Tally) (v : Visibility) : Tally :=
  if v.pair.isAuto && !s.settings.autos then t
  else if v.isFinite then
    match s.measure v with
    | .ok outcome => t.addFinding v.pair ⟨v.weight, v.channel, outcome⟩
    | .error _ => t
  else t.addSkipped ⟨v.pair, v.channel⟩

def addRun (s : Setup) (t : Tally) (r : Run) : Tally :=
  r.visibilities.foldl (addVisibility s)
    (r.occupancies.foldl addOccupancy (r.uvws.foldl addCoordinates t))

theorem enterAll_append (t : Tally) (events events' : List Event) :
    t.enterAll (events ++ events') = (t.enterAll events).enterAll events' :=
  List.foldl_append

/-- Events that come from records one by one are entered record by record. -/
theorem enterAll_flatMap {α : Type} (f : α → List Event) (add : Tally → α → Tally)
    (h : ∀ t a, enterAll t (f a) = add t a) (as : List α) (t : Tally) :
    t.enterAll (as.flatMap f) = as.foldl add t := by
  induction as generalizing t with
  | nil => rfl
  | cons a as ih => rw [List.flatMap_cons, enterAll_append, h, ih, List.foldl_cons]

theorem enterAll_uvwEvents (slice : Int32) (t : Tally) (r : Uvw) :
    t.enterAll (Setup.uvwEvents slice r) = t.addCoordinates r := by
  unfold Setup.uvwEvents addCoordinates
  split <;> rfl

theorem enterAll_visibilityEvents (s : Setup) (slice : Int32) (t : Tally) (v : Visibility) :
    t.enterAll (s.visibilityEvents slice v) = t.addVisibility s v := by
  unfold Setup.visibilityEvents Setup.judgeVisibility addVisibility
  by_cases hauto : (v.pair.isAuto && !s.settings.autos) = true
  · rw [if_pos hauto, if_pos hauto]
    rfl
  · rw [if_neg hauto, if_neg hauto]
    cases hfinite : v.isFinite
    · rfl
    · cases s.measure v <;> rfl

theorem enterAll_runEvents (s : Setup) (t : Tally) (r : Run) :
    t.enterAll (s.runEvents r) = t.addRun s r := by
  unfold Setup.runEvents addRun
  rw [enterAll_append, enterAll_append,
    enterAll_flatMap _ _ (enterAll_uvwEvents r.slice),
    enterAll_flatMap _ addOccupancy (fun _ _ => rfl),
    enterAll_flatMap _ _ (enterAll_visibilityEvents s r.slice)]

theorem enterAll_runs (s : Setup) (t : Tally) (runs : List Run) :
    t.enterAll (runs.flatMap s.runEvents) = runs.foldl (addRun s) t :=
  enterAll_flatMap _ _ (enterAll_runEvents s) runs t

/-- That a slice was opened and that bytes were left over is not entered. -/
theorem enterAll_slice (s : Setup) (t : Tally) (block : List Run) (left : Nat) :
    t.enterAll (s.sliceEvents block ++ Setup.leftOver left) = block.foldl (addRun s) t := by
  have hleft : ∀ t' : Tally, t'.enterAll (Setup.leftOver left) = t' := by
    intro t'
    unfold Setup.leftOver
    split <;> rfl
  rw [enterAll_append, hleft]
  exact enterAll_runs s t block

theorem clear_empty (stations : Nat) : (empty stations).clear = empty stations := by
  simp [empty, clear, Slots.empty, Slots.clear]

end Tally

def Slice.ofRuns (s : Setup) (stations : Nat) (block : List Run) : Slice where
  number := blockNumber block
  tally := block.foldl (Tally.addRun s) (.empty stations)

end Correlator
