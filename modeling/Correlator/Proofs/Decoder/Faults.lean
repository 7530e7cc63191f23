import Correlator.Proofs.Decoder.Course
import Correlator.Proofs.Decoder.Lockstep
import Correlator.Proofs.Header.Failures

/-!
# Streams that fail

A decoder whose stream fails stands beside the same decoder on the stream as it would be
without its failures.  They go abreast, call by call, until a failure shows, and then the
first one breaks off.  A stream that fails before its end never seems to end.
-/

namespace Correlator

namespace Source

/-- The stream as it would be without its failures. -/
def sound (s : Source) : Source := { s with readFault := none, seekFault := none }

def FailsWith (s : Source) (why : String) : Prop :=
  (∃ fault, s.readFault = some fault ∧ fault.reason = why) ∨ s.seekFault = some why

/-- Any failure of the stream itself, and shortages as they come. -/
def mayFail (s : Source) : Allowance := ⟨s.FailsWith, True⟩

theorem matches_sound (s : Source) : s.Matches s.mayFail s.sound where
  bytes := rfl
  pos := rfl
  readFault := .inr ⟨rfl, fun fault h => .inl ⟨fault, h, rfl⟩⟩
  seekFault := .inr ⟨rfl, fun _ h => .inr h⟩
  shortage _ := trivial

theorem not_runsOut_of_fault {s : Source} {fault : ReadFault} (h : s.readFault = some fault)
    (hposition : fault.position ≤ s.bytes.size) : ¬ s.RunsOut := by
  intro hout
  have := hout fault h
  omega

end Source

namespace Decoder

def sound (d : Decoder) : Decoder := { d with source := d.source.sound }

theorem matches_sound (d : Decoder) : d.Matches d.source.mayFail d.sound :=
  ⟨rfl, rfl, rfl, rfl, d.source.matches_sound⟩

variable {may : Allowance} {d e : Decoder} {count : Nat}

/-- The slices of `e` one by one, then a failure of the stream, and nothing from then on. -/
structure BreaksOff (d e : Decoder) (count : Nat) (why : String) : Prop where
  slices : ∀ earlier < count, ∃ slice,
    d.answer earlier = .ok (some slice) ∧ e.answer earlier = .ok (some slice)
  failure : d.answer count = .error (.stream why)
  nothing : ∀ later, count < later → d.answer later = .ok none

/-- The same answers so far, and decoders that still match. -/
structure Abreast (may : Allowance) (d e : Decoder) (count : Nat) : Prop where
  decoders : (d.after count).Matches may (e.after count)
  answers : ∀ earlier < count, d.answer earlier = e.answer earlier

theorem Abreast.succ (h : Abreast may d e count) :
    Abreast may d e (count + 1) ∨ ∃ why, may.failure why ∧ d.BreaksOff e count why := by
  have hstations : d.stations = e.stations := by
    rw [← d.stations_after count, h.decoders.stations, e.stations_after count]
  rcases next_of_matches h.decoders with ⟨hresult, hevents, hmatch⟩ | ⟨hgoes, why, hwhy, hfails⟩
  · left
    rw [← after_succ, ← after_succ] at hmatch
    refine ⟨hmatch, fun earlier hearlier => ?_⟩
    rcases Nat.lt_succ_iff_lt_or_eq.mp hearlier with hlt | rfl
    · exact h.answers earlier hlt
    · rw [answer_eq, answer_eq, hresult, hevents, hstations]
  · right
    have hanswer (more : Nat) := answer_of_fails hfails more
    simp only [← answer_add] at hanswer
    refine ⟨why, hwhy, fun earlier hearlier => ?_, hanswer 0, fun later hlater => ?_⟩
    · obtain ⟨slice, hslice⟩ := exists_slice_of_unfinished hgoes hearlier
      exact ⟨slice, hslice, by rw [← h.answers earlier hearlier, hslice]⟩
    · have hmore := hanswer (later - count)
      rwa [Nat.add_sub_cancel' (Nat.le_of_lt hlater), if_neg (by omega)] at hmore

/-- Decoders that match give the same answers, unless and until the first breaks off. -/
theorem answers_of_matches (h : d.Matches may e) :
    (∀ earlier, d.answer earlier = e.answer earlier) ∨
      ∃ count why, may.failure why ∧ d.BreaksOff e count why := by
  by_cases hbreak : ∃ count why, may.failure why ∧ d.BreaksOff e count why
  · exact .inr hbreak
  · left
    have habreast : ∀ count, Abreast may d e count := by
      intro count
      induction count with
      | zero => exact ⟨h, fun earlier hearlier => by omega⟩
      | succ count ih => exact ih.succ.resolve_right fun hfails => hbreak ⟨count, hfails⟩
    exact fun earlier => (habreast (earlier + 1)).answers earlier (Nat.lt_succ_self earlier)

/- On a stream that fails before it runs out, nothing allows for a shortage. -/

theorem matches_after (h : ¬ d.source.RunsOut) (count : Nat) :
    (d.after count).Matches (.alike False) (d.after count) :=
  after_invariant (P := fun e => e.Matches (.alike False) e) (fun _ he => (next_of_alike he).2.2)
    ⟨rfl, rfl, rfl, rfl, ⟨rfl, rfl, .inl rfl, .inl rfl, h⟩⟩ count

/-- The end that there always is comes with an error. -/
theorem exists_error_of_fault (hd : d.finished = false) (h : ¬ d.source.RunsOut) :
    ∃ count reason, d.answer count = .error reason ∧
      ∀ earlier < count, ∃ slice, d.answer earlier = .ok (some slice) := by
  obtain ⟨count, hslices, hlast, -⟩ := d.exists_last
  cases hfinished : (d.after count).finished with
  | false =>
    obtain ⟨hend, -, -⟩ := shortage_of_next (matches_after h count)
    obtain ⟨reason, hreason⟩ := (hend hfinished (finished_of_next hlast)).resolve_right id
    exact ⟨count, reason, by rw [answer_eq, hreason]; rfl, hslices⟩
  | true =>
    -- The call before it has given a slice and ended with it, which is a shortage.
    cases count with
    | zero => simp [after, hd] at hfinished
    | succ count =>
      obtain ⟨slice, hslice⟩ := hslices count (Nat.lt_succ_self count)
      rw [after_succ] at hfinished
      cases hgoes : (d.after count).finished with
      | true => simp [answer_of_finished_after hgoes (Nat.le_refl count)] at hslice
      | false =>
        obtain ⟨hend, -, -⟩ := shortage_of_next (matches_after h count)
        obtain ⟨reason, hreason⟩ := (hend hgoes hfinished).resolve_right id
        rw [answer_eq, hreason] at hslice
        simp [Except.map] at hslice

theorem isEndOfStream_of_fault (h : ¬ d.source.RunsOut) {earlier : Nat} {reason : DecodeError}
    (hanswer : d.answer earlier = .error reason) : reason.isEndOfStream = false := by
  obtain ⟨-, hshortage, -⟩ := shortage_of_next (matches_after h earlier)
  rw [answer_eq] at hanswer
  cases hresult : (d.after earlier).next.result with
  | ok number => simp [hresult, Except.map] at hanswer
  | error reason' =>
    rw [hresult] at hanswer
    rw [← Except.error.inj hanswer]
    exact Bool.eq_false_iff.mpr fun hend => hshortage reason' hresult hend

/-- A failure of the stream is never taken for data or for the end of the stream.  The
answers are those that there would be without it, all of them or up to the error that it
gives.  Where reads fail from within the bytes, or right behind them, decoding ends with an
error, and no error or warning says that bytes are missing; nor does reading a header. -/
theorem answer_of_faults (d : Decoder) (hd : d.finished = false) :
    ((∀ earlier, d.answer earlier = d.sound.answer earlier) ∨
      ∃ count why, d.source.FailsWith why ∧ d.BreaksOff d.sound count why) ∧
    (Header.read.outcome d.source = Header.read.outcome d.source.sound ∨
      ∃ why, d.source.FailsWith why ∧ Header.read.outcome d.source = .error (.stream why)) ∧
    ∀ fault, d.source.readFault = some fault → fault.position ≤ d.source.bytes.size →
      (∃ count reason, d.answer count = .error reason ∧
        ∀ earlier < count, ∃ slice, d.answer earlier = .ok (some slice)) ∧
      (∀ earlier reason, d.answer earlier = .error reason → reason.isEndOfStream = false) ∧
      (∀ earlier left, .leftOver left ∉ (d.after earlier).next.events) ∧
      (d.source.pos = 0 → ∀ expected found,
        Header.read.outcome d.source ≠ .error (.headerCut expected found)) := by
  refine ⟨answers_of_matches d.matches_sound,
    Reading.outcome_of_lockstep Header.lockstep_read d.source.matches_sound,
    fun fault hfault hposition => ?_⟩
  have hout := Source.not_runsOut_of_fault hfault hposition
  refine ⟨exists_error_of_fault hd hout, fun _ _ => isEndOfStream_of_fault hout, ?_,
    fun hpos => Header.read_ne_headerCut hpos hout⟩
  intro earlier left hmem
  exact (shortage_of_next (matches_after hout earlier)).2.2 left hmem

/-- Three slices on a disk that fails within the header of the last.  Without the failure
all three are found, so with it decoding breaks off, and with what the disk gives. -/
theorem breaksOff_of_failing_disk :
    let bytes := [⟨5, [], [], []⟩, ⟨6, [], [], []⟩, ⟨7, [], [], []⟩].flatMap Run.encode
    let d : Decoder :=
      { setup := { channels := 1 }, stations := 2
        source := { bytes := bytes.toArray, readFault := some ⟨40, "disk"⟩ } }
    d.finished = false ∧ d.source.readFault = some ⟨40, "disk"⟩ ∧ 40 ≤ d.source.bytes.size ∧
      ∃ count, d.BreaksOff d.sound count "disk" := by
  intro bytes d
  have hbytes : Transcript.ofBytes d.sound.setup.channels d.sound.source.ahead =
      ⟨[⟨5, [], [], []⟩, ⟨6, [], [], []⟩, ⟨7, [], [], []⟩], .clean 0⟩ := by
    decide +kernel
  have hready := ready_ofBytes (show d.sound.finished = false from rfl) (by decide) rfl rfl
  rw [hbytes] at hready
  obtain ⟨hanswers, -, hfault⟩ := answer_of_faults d rfl
  obtain ⟨⟨count, reason, herror, -⟩, -⟩ := hfault _ rfl (by decide)
  refine ⟨rfl, rfl, by decide, ?_⟩
  rcases hanswers with hsame | ⟨count, why, hwhy, hbreaks⟩
  · rw [hsame] at herror
    exact absurd herror (answer_ne_error_of_clean hready _ _)
  · rcases hwhy with ⟨fault, hfault, rfl⟩ | hseek
    · cases hfault
      exact ⟨count, hbreaks⟩
    · cases hseek

end Decoder
end Correlator
