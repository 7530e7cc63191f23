import Correlator.Proofs.Decoder.Lockstep
import Correlator.Proofs.Header.Failures

/-!
# What a caller sees

A caller reads the header and then asks a decoder for slices, some in new tallies and some
in one that it keeps.  `observe` is all that it sees on the way.  How the stream delivers
its bytes has no part in that, not even in when a failure of the stream shows.
-/

namespace Correlator

/-- The stream with all its bytes delivered at once, and no interruptions. -/
def Source.atOnce (s : Source) : Source :=
  { s with delivery := .whole, calls := 0, interrupted := 0 }

/-- How a slice is asked for: in a new tally, or in the one that is kept. -/
inductive Call
  | slice
  | into

structure Session where
  decoder : Decoder
  kept : Tally

/-- What a caller sees of one call and after it. -/
structure Report where
  found : Except DecodeError (Option Slice)
  /-- The tally that is kept, whatever became of the call. -/
  kept : Tally
  log : List LogLine
  slices : Nat
  pos : Nat

structure Observation where
  header : Except DecodeError Header
  pos : Nat
  reports : List Report

/-- The slice that a step has found, with the tally that it was decoded into. -/
def Decoder.Step.taken (step : Decoder.Step) (tally : Tally) : Except DecodeError (Option Slice) :=
  step.result.map (·.map (⟨·, tally⟩))

namespace Session

def report (s : Session) (found : Except DecodeError (Option Slice)) (events : List Event) :
    Report where
  found
  kept := s.kept
  log := events.filterMap Event.line?
  slices := s.decoder.slices
  pos := s.decoder.source.pos

def call (s : Session) : Call → Report × Session
  | .slice =>
    let (step, found) := s.decoder.nextSlice
    let s := { s with decoder := step.decoder }
    (s.report found step.events, s)
  | .into =>
    let (step, kept) := s.decoder.nextInto s.kept
    let s := ⟨step.decoder, kept⟩
    (s.report (step.taken kept) step.events, s)

def run (s : Session) : List Call → List Report
  | [] => []
  | call :: calls => (s.call call).1 :: (s.call call).2.run calls

end Session

/-- Read a header, and on its own stream the slices behind it. -/
def observe (settings : Settings) (kept : Tally) (calls : List Call) (source : Source)
    (transform : Transform := .inverse) : Observation :=
  match Header.read source with
  | .error reason source => ⟨.error reason, source.pos, []⟩
  | .ok header source =>
    ⟨.ok header, source.pos, Session.run ⟨.start header settings source transform, kept⟩ calls⟩

theorem Source.matches_atOnce (s : Source) : s.Matches (.alike True) s.atOnce :=
  ⟨rfl, rfl, .inl rfl, .inl rfl, fun _ => trivial⟩

namespace Decoder

variable {d e : Decoder}

theorem nextInto_of_matches (h : d.Matches (.alike True) e) (tally : Tally) :
    (d.nextInto tally).1.result = (e.nextInto tally).1.result ∧
      (d.nextInto tally).1.events = (e.nextInto tally).1.events ∧
      (d.nextInto tally).2 = (e.nextInto tally).2 ∧
      (d.nextInto tally).1.decoder.Matches (.alike True) (e.nextInto tally).1.decoder := by
  obtain ⟨hresult, hevents, hmatch⟩ := next_of_alike h
  refine ⟨hresult, hevents, ?_, hmatch⟩
  show (if d.finished then _ else tally.clear.enterAll d.next.events) =
    if e.finished then _ else tally.clear.enterAll e.next.events
  rw [h.finished, hevents]

theorem nextSlice_of_matches (h : d.Matches (.alike True) e) :
    d.nextSlice.2 = e.nextSlice.2 ∧ d.nextSlice.1.events = e.nextSlice.1.events ∧
      d.nextSlice.1.decoder.Matches (.alike True) e.nextSlice.1.decoder := by
  obtain ⟨hresult, hevents, htally, hmatch⟩ := nextInto_of_matches h (.empty d.stations)
  rw [h.stations] at hresult hevents htally hmatch
  refine ⟨?_, hevents, hmatch⟩
  unfold nextSlice
  dsimp only
  rw [h.stations, hresult, htally]

end Decoder

namespace Session

/-- Sessions that a caller cannot tell apart. -/
structure Matches (s t : Session) : Prop where
  decoder : s.decoder.Matches (.alike True) t.decoder
  kept : s.kept = t.kept

variable {s t : Session}

theorem report_of_matches (h : s.Matches t) {found found' : Except DecodeError (Option Slice)}
    {events events' : List Event} (hfound : found = found') (hevents : events = events') :
    s.report found events = t.report found' events' := by
  unfold report
  rw [h.kept, h.decoder.slices, h.decoder.source.pos, hfound, hevents]

theorem call_of_matches (h : s.Matches t) (call : Call) :
    (s.call call).1 = (t.call call).1 ∧ (s.call call).2.Matches (t.call call).2 := by
  obtain ⟨d, kept⟩ := s
  obtain ⟨e, kept'⟩ := t
  obtain ⟨hmatch, hkept⟩ := h
  dsimp only at hmatch hkept
  subst hkept
  cases call with
  | slice =>
    obtain ⟨hfound, hevents, hdecoder⟩ := Decoder.nextSlice_of_matches hmatch
    have hsession : Matches ⟨d.nextSlice.1.decoder, kept⟩ ⟨e.nextSlice.1.decoder, kept⟩ :=
      ⟨hdecoder, rfl⟩
    exact ⟨report_of_matches hsession hfound hevents, hsession⟩
  | into =>
    obtain ⟨hresult, hevents, htally, hdecoder⟩ := Decoder.nextInto_of_matches hmatch kept
    have hsession : Matches ⟨(d.nextInto kept).1.decoder, (d.nextInto kept).2⟩
        ⟨(e.nextInto kept).1.decoder, (e.nextInto kept).2⟩ := ⟨hdecoder, htally⟩
    have hfound : (d.nextInto kept).1.taken (d.nextInto kept).2 =
        (e.nextInto kept).1.taken (e.nextInto kept).2 := by
      rw [Decoder.Step.taken, hresult, htally, Decoder.Step.taken]
    exact ⟨report_of_matches hsession hfound hevents, hsession⟩

theorem run_of_matches (h : s.Matches t) (calls : List Call) : s.run calls = t.run calls := by
  induction calls generalizing s t with
  | nil => rfl
  | cons call calls ih =>
    obtain ⟨hreport, hmatch⟩ := call_of_matches h call
    rw [run, run, hreport, ih hmatch]

end Session

/-- However a stream splits its bytes and however often it is interrupted, with failures or
without: a caller sees what it sees if all bytes come at once. -/
theorem observe_atOnce (settings : Settings) (kept : Tally) (calls : List Call)
    (source : Source) (transform : Transform) :
    observe settings kept calls source transform =
      observe settings kept calls source.atOnce transform := by
  have hends := Header.lockstep_read _ _ source.matches_atOnce
  unfold observe
  generalize Header.read source = first at hends ⊢
  generalize Header.read source.atOnce = second at hends ⊢
  cases hends with
  | failed hwhy _ => exact hwhy.elim
  | error _ hmatch => simp only [hmatch.pos]
  | @ok header s t _ hmatch =>
    have hsession : Session.Matches ⟨.start header settings s transform, kept⟩
        ⟨.start header settings t transform, kept⟩ :=
      ⟨Decoder.matches_start header settings transform hmatch, rfl⟩
    simp only [hmatch.pos, Session.run_of_matches hsession]

end Correlator
