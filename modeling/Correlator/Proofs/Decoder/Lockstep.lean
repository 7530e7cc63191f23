import Correlator.Proofs.Decoder.Beside
import Correlator.Proofs.Decoder.Course

/-!
# Decoders that match

Two decoders with the same setup, on streams that hold the same bytes and stand at the same
place.  `next_of_matches` says that they take the same step and match again, unless the stream
of the first fails alone.
-/

namespace Correlator

variable {may : Allowance}

/-- Tapes that are alike but for what `may` allows for.  Bytes are left over only where the
stream may run out. -/
structure Tape.Matches (may : Allowance) (t u : Tape) : Prop where
  source : t.source.Matches may u.source
  events : t.events = u.events
  leftOver : ∀ count, .leftOver count ∈ t.events → may.shortage

/-- The same events on both sides.  Bytes are left over only where the stream may run out. -/
def sameNotes (may : Allowance) (events events' : List Event) : Prop :=
  events = events' ∧ ∀ count, .leftOver count ∈ events → may.shortage

theorem noted_same (may : Allowance) : Noted (sameNotes may) may where
  nil := ⟨rfl, by simp⟩
  append := by
    rintro e _ f _ ⟨rfl, he⟩ ⟨rfl, hf⟩
    refine ⟨rfl, fun count hmem => ?_⟩
    rcases List.mem_append.mp hmem with hmem | hmem
    · exact he count hmem
    · exact hf count hmem
  same := by
    intro event _ _ h
    exact ⟨rfl, fun count hmem => h count (List.mem_singleton.mp hmem).symm⟩

theorem Tape.matches_iff {t u : Tape} :
    t.Matches may u ↔ t.Beside (Source.Matches may) (sameNotes may) u := by
  constructor
  · rintro ⟨hsource, hevents, hleft⟩
    exact ⟨hsource, congrArg Array.toList hevents, fun count hmem =>
      hleft count (Array.mem_toList_iff.mp hmem)⟩
  · rintro ⟨hsource, hevents, hleft⟩
    exact ⟨hsource, Array.toList_inj.mp hevents, fun count hmem =>
      hleft count (Array.mem_toList_iff.mpr hmem)⟩

namespace Decoding

variable {α : Type}

/-- What becomes of a record is neither that bytes are left over nor that they are missing. -/
structure Judges (judge : α → Except DecodeError (List Event)) : Prop where
  events : ∀ {a events}, judge a = .ok events → ∀ count, .leftOver count ∉ events
  complete : ∀ a, Complete (judge a)

theorem Judges.judged {judge : α → Except DecodeError (List Event)} (h : Judges judge) (a : α) :
    Judged (sameNotes may) (judge a) (judge a) := by
  cases hjudge : judge a with
  | ok events => exact .ok ⟨rfl, fun count hmem => absurd hmem (h.events hjudge count)⟩
  | error reason => exact .error (h.complete a reason hjudge)

end Decoding

namespace Setup

open Decoding

theorem judges_visibility (s : Setup) (slice : Int32) : Judges (s.judgeVisibility slice) where
  events := by
    intro v events h
    unfold judgeVisibility at h
    split at h
    · simp only [Except.ok.injEq] at h
      simp [← h]
    · split at h
      · simp only [Except.ok.injEq] at h
        simp [← h]
      · split at h
        · simp only [Except.ok.injEq] at h
          simp [← h]
        · simp at h
  complete v := by
    unfold judgeVisibility
    split
    · exact complete_ok _
    · split
      · exact complete_ok _
      · split
        · exact complete_ok _
        · exact complete_error rfl

theorem beside_self (s : Setup) : s.Beside (sameNotes may) s :=
  ⟨rfl, fun slice v _ => (s.judges_visibility slice).judged v⟩

theorem lockstep_slice (s : Setup) :
    Lockstep (Tape.Matches may) may
      (fun found => (∀ decoded, found = some decoded → decoded.ended = true) → may.shortage)
      s.slice? := by
  intro t u h
  exact (beside_slice (Reading.kept_matches may) (noted_same may) s.beside_self t u
    (Tape.matches_iff.mp h)).weaken (fun _ _ => Tape.matches_iff.mpr) fun _ => id

end Setup

namespace Decoder

/-- Decoders that are alike but for what `may` allows for. -/
structure Matches (may : Allowance) (d e : Decoder) : Prop where
  setup : d.setup = e.setup
  stations : d.stations = e.stations
  slices : d.slices = e.slices
  finished : d.finished = e.finished
  source : d.source.Matches may e.source

variable {d e : Decoder}

theorem matches_start (header : Header) (settings : Settings) (transform : Transform)
    {s t : Source} (h : s.Matches may t) :
    (start header settings s transform).Matches may (start header settings t transform) :=
  ⟨rfl, rfl, rfl, rfl, h⟩

theorem ends_slice (h : d.Matches may e) :
    Ends (Tape.Matches may) may
      (fun found => (∀ decoded, found = some decoded → decoded.ended = true) → may.shortage)
      (d.setup.slice? { source := d.source }) (e.setup.slice? { source := e.source }) := by
  rw [← h.setup]
  exact d.setup.lockstep_slice _ _ ⟨h.source, rfl, by simp⟩

theorem beside_of_matches (h : d.Matches may e) :
    d.Beside (Source.Matches may) (sameNotes may) e :=
  ⟨h.setup ▸ d.setup.beside_self, h.slices, h.finished, h.source⟩

/-- Decoders that match take the same step and match again, unless the first fails alone,
which is the end of it. -/
theorem next_of_matches (h : d.Matches may e) :
    (d.next.result = e.next.result ∧ d.next.events = e.next.events ∧
      d.next.decoder.Matches may e.next.decoder) ∨
    d.finished = false ∧ ∃ why, may.failure why ∧ d.Fails (.stream why) := by
  rcases next_of_beside (Reading.kept_matches may) (noted_same may) (beside_of_matches h) with
    ⟨hresult, hevents, hnext⟩ | hfails
  · refine .inl ⟨hresult, hevents.1, ?_, ?_, hnext.slices, hnext.finished, hnext.source⟩
    · rw [setup_next, setup_next, h.setup]
    · rw [stations_next, stations_next, h.stations]
  · exact .inr hfails

theorem next_of_alike {shortage : Prop} (h : d.Matches (.alike shortage) e) :
    d.next.result = e.next.result ∧ d.next.events = e.next.events ∧
      d.next.decoder.Matches (.alike shortage) e.next.decoder :=
  (next_of_matches h).resolve_right fun ⟨_, _, hwhy, _⟩ => hwhy

/-- Whatever says that there are no more bytes, or too few, says it of a stream that may run
out: an end, bytes left over, a record that is not all there. -/
theorem shortage_of_next (h : d.Matches may d) :
    (d.finished = false → d.next.decoder.finished = true →
      (∃ reason, d.next.result = .error reason) ∨ may.shortage) ∧
    (∀ reason, d.next.result = .error reason → reason.isEndOfStream = true → may.shortage) ∧
    ∀ count, .leftOver count ∈ d.next.events → may.shortage := by
  cases hd : d.finished with
  | true =>
    rw [next_of_finished hd]
    simp
  | false =>
    have hends := ends_slice h
    rw [next_eq hd]
    generalize d.setup.slice? { source := d.source } = result at hends ⊢
    have hevents : ∀ {t u : Tape}, t.Matches may u →
        ∀ count, .leftOver count ∈ t.events.toList → may.shortage :=
      fun hmatch count hmem => hmatch.leftOver count (Array.mem_toList_iff.mp hmem)
    cases hends with
    | failed hwhy hmatch =>
      refine ⟨fun _ _ => .inl ⟨_, rfl⟩, fun reason hreason hend => ?_, hevents hmatch⟩
      simp only [stepOf, Except.error.injEq] at hreason
      simp [← hreason, DecodeError.isEndOfStream] at hend
    | error hshortage hmatch =>
      refine ⟨fun _ _ => .inl ⟨_, rfl⟩, fun reason hreason hend => ?_, hevents hmatch⟩
      simp only [stepOf, Except.error.injEq] at hreason
      exact hshortage (hreason ▸ hend)
    | @ok found t u hpost hmatch =>
      cases found with
      | none => exact ⟨fun _ _ => .inr (hpost (by simp)), by simp [stepOf], hevents hmatch⟩
      | some found =>
        refine ⟨fun _ hended => .inr (hpost fun decoded hdecoded => ?_), by simp [stepOf],
          hevents hmatch⟩
        rw [← Option.some.inj hdecoded]
        exact hended

end Decoder
end Correlator
