import Correlator.Proofs.Decoder.Step
import Correlator.Proofs.Stream.Lockstep

/-!
# Two decoders side by side

A step of a decoder, part by part, beside a step of another one.  Their streams are related
in some way that reading keeps (`Source.Kept`), what they note is related in some way that
goes on from part to part (`Noted`), and their setups make related things of every
visibility.  `next_of_beside` is the outcome: both take a step with the same result, with
related events, and into decoders that stand side by side again, unless the stream of the
first fails alone.
-/

namespace Correlator

/-- Events that say what has become of a visibility. -/
def Event.ofVisibility : Event → Bool
  | .finding .. | .skipped .. => true
  | _ => false

/-- What is noted of stations: coordinates for the station that they name, and statistics in
which no count is negative. -/
def Event.Consistent : Event → Prop
  | .uvw station record => record.station? = some station
  | .occupancy record => record.Counted
  | _ => True

/-- A relation between what is noted on two sides.  It may be noted in parts, and all but what
becomes of visibilities is noted alike.  Bytes are left over only where a stream may run out. -/
structure Noted (noted : List Event → List Event → Prop) (may : Allowance) : Prop where
  nil : noted [] []
  append : ∀ {e e' f f' : List Event}, noted e e' → noted f f' → noted (e ++ f) (e' ++ f')
  same : ∀ event : Event, event.ofVisibility = false → event.Consistent →
    (∀ count, event = .leftOver count → may.shortage) → noted [event] [event]

/-- What becomes of the same record on two sides. -/
inductive Judged (noted : List Event → List Event → Prop) :
    Except DecodeError (List Event) → Except DecodeError (List Event) → Prop
  | ok {events events' : List Event} :
    noted events events' → Judged noted (.ok events) (.ok events')
  | error {reason : DecodeError} : reason.isEndOfStream = false →
      Judged noted (.error reason) (.error reason)

/-- Tapes with related streams and related events. -/
structure Tape.Beside (rel : Source → Source → Prop) (noted : List Event → List Event → Prop)
    (t u : Tape) : Prop where
  source : rel t.source u.source
  events : noted t.events.toList u.events.toList

variable {rel : Source → Source → Prop} {noted : List Event → List Event → Prop}
  {may : Allowance}

namespace Decoding

variable {α : Type} {post : α → Prop}

theorem ends_reading {step step' : Reading α} {t u : Tape}
    (hstep : Ends rel may post (step t.source) (step' u.source))
    (hevents : noted t.events.toList u.events.toList) :
    Ends (Tape.Beside rel noted) may post (reading step t) (reading step' u) := by
  have hwith : ∀ {s s' : Source}, rel s s' →
      Tape.Beside rel noted { t with source := s } { u with source := s' } :=
    fun hsource => ⟨hsource, hevents⟩
  unfold reading
  generalize step t.source = first at hstep
  generalize step' u.source = second at hstep
  cases hstep with
  | ok hpost hsource => exact .ok hpost (hwith hsource)
  | error hshortage hsource => exact .error hshortage (hwith hsource)
  | failed hwhy hsource => exact .failed hwhy (hwith hsource)

theorem lockstep_reading {step : Reading α} (h : Lockstep rel may post step) :
    Lockstep (Tape.Beside rel noted) may post (reading step) :=
  fun t u htape => ends_reading (h t.source u.source htape.source) htape.events

theorem beside_note (hnoted : Noted noted may) {events events' : List Event}
    (h : noted events events') :
    Beside (Tape.Beside rel noted) may (fun _ => True) (note events) (note events') := by
  intro t u htape
  refine .ok trivial ⟨htape.source, ?_⟩
  show noted (t.events ++ events.toArray).toList (u.events ++ events'.toArray).toList
  rw [Array.toList_append, Array.toList_append]
  exact hnoted.append htape.events h

/-- Note what becomes of a record. -/
def entry (outcome : Except DecodeError (List Event)) : Decoding Unit :=
  reading (Reading.ofExcept outcome) >>= note

theorem beside_entry (hnoted : Noted noted may) {outcome outcome' : Except DecodeError (List Event)}
    (h : Judged noted outcome outcome') :
    Beside (Tape.Beside rel noted) may (fun _ => True) (entry outcome) (entry outcome') := by
  intro t u htape
  cases h with
  | ok hevents => exact beside_note hnoted hevents t u htape
  | error hcomplete => exact .error (fun hend => by simp [hcomplete] at hend) htape

theorem each_succ_eq (step : Reading α) (judge : α → Except DecodeError (List Event))
    (count : Nat) :
    each step judge (count + 1)
      = reading step >>= fun a => entry (judge a) >>= fun _ => each step judge count := by
  rw [each]
  simp only [entry, bind_assoc]

theorem beside_each (hnoted : Noted noted may) {step : Reading α}
    {judge judge' : α → Except DecodeError (List Event)}
    (hstep : Lockstep rel may post step) (hjudge : ∀ a, post a → Judged noted (judge a) (judge' a))
    (count : Nat) :
    Beside (Tape.Beside rel noted) may (fun _ => True) (each step judge count)
      (each step judge' count) := by
  induction count with
  | zero => exact lockstep_pure trivial
  | succ count ih =>
    rw [each_succ_eq, each_succ_eq]
    refine beside_bind (lockstep_reading hstep) fun a hpost => ?_
    exact beside_bind (beside_entry hnoted (hjudge a hpost)) fun _ _ => ih

end Decoding

/- The records of a run. -/

theorem Uvw.lockstep_read (hrel : Source.Kept rel may) :
    Lockstep rel may (fun _ => True) Uvw.read :=
  lockstep_map _ (Reading.lockstep_exactly hrel _ _) fun _ _ => trivial

theorem Occupancy.complete_check (r : Occupancy) : Complete r.check := by
  unfold check
  split
  · exact complete_error rfl
  · exact complete_ok r

theorem Occupancy.lockstep_read (hrel : Source.Kept rel may) :
    Lockstep rel may Counted Occupancy.read := by
  refine lockstep_bind (Reading.lockstep_exactly hrel _ _) fun bytes _ => ?_
  exact lockstep_weaken (Reading.lockstep_ofExcept (complete_check _)) fun _ => counted_of_check

theorem Visibility.lockstep_read (hrel : Source.Kept rel may) (channels : Nat) :
    Lockstep rel may (fun v => v.spectrum.length = channels + 1) (Visibility.read channels) :=
  lockstep_bind (Reading.lockstep_exactly hrel _ _) fun _ _ =>
    lockstep_bind (Reading.lockstep_exactly hrel _ _) fun _ _ =>
      lockstep_pure (Spectrum.length_decode _ _)

namespace Setup

open Decoding

/-- Setups for the same width of visibilities, of which they make related things. -/
structure Beside (noted : List Event → List Event → Prop) (s s' : Setup) : Prop where
  channels : s.channels = s'.channels
  judged : ∀ (slice : Int32) (v : Visibility), v.spectrum.length = s.channels + 1 →
    Judged noted (s.judgeVisibility slice v) (s'.judgeVisibility slice v)

variable {s s' : Setup}

theorem judged_uvw (hnoted : Noted noted may) (slice : Int32) (r : Uvw) :
    Judged noted (judgeUvw slice r) (judgeUvw slice r) := by
  rw [judgeUvw_eq]
  apply Judged.ok
  unfold uvwEvents
  split
  · rename_i station hstation
    exact hnoted.same _ rfl hstation (by simp)
  · exact hnoted.same _ rfl trivial (by simp)

theorem beside_records (hrel : Source.Kept rel may) (hnoted : Noted noted may)
    (h : s.Beside noted s') (header : RunHeader) :
    Correlator.Beside (Tape.Beside rel noted) may (fun _ => True) (s.records header)
      (s'.records header) := by
  refine beside_bind (beside_each hnoted (Uvw.lockstep_read hrel)
    (fun r _ => judged_uvw hnoted header.slice r) header.uvws) fun _ _ => ?_
  refine beside_bind (beside_each hnoted (Occupancy.lockstep_read hrel)
    (fun r hcounted => .ok (hnoted.same (.occupancy r) rfl hcounted (by simp)))
    header.occupancies) fun _ _ => ?_
  rw [← h.channels]
  exact beside_each hnoted (Visibility.lockstep_read hrel s.channels) (h.judged header.slice)
    header.visibilities

/- Reading ahead, written with the steps that it is made of. -/

/-- What the bytes that were read for a header come to. -/
def headerOf? (bytes : List UInt8) : Decoding (Option RunHeader) :=
  if bytes.length < Stored.width RunCounts then do
    note (leftOver bytes.length)
    return none
  else some <$> reading (Reading.ofExcept (RunHeader.ofBytes bytes))

theorem nextHeader_eq :
    nextHeader? = reading (Reading.upTo (Stored.width RunCounts)) >>= headerOf? := by
  funext tape
  show _ = EStateM.bind _ _ tape
  unfold nextHeader? EStateM.bind reading Reading.upTo
  rcases tape.source.fill (Stored.width RunCounts) with ⟨outcome, source⟩
  cases outcome with
  | error why => rfl
  | ok bytes =>
    dsimp only
    unfold headerOf?
    cases bytes with
    | nil =>
      rw [if_pos (by decide)]
      show EStateM.Result.ok none _ = EStateM.Result.ok none (Tape.mk source (tape.events ++ #[]))
      rw [Array.append_empty]
    | cons b bytes =>
      dsimp only
      by_cases hshort : (b :: bytes).length < Stored.width RunCounts
      · rw [if_pos hshort, if_pos hshort, Array.push_eq_append]
        rfl
      · rw [if_neg hshort, if_neg hshort]
        show _ = EStateM.map some _ _
        unfold EStateM.map reading Reading.ofExcept
        cases RunHeader.ofBytes (b :: bytes) <;> rfl

def closeSlice : Decoding Bool := do
  handBack
  return false

/-- What follows from a header that was read ahead, or from its absence. -/
def behind (s : Setup) (slice : Int32) (header : Option RunHeader) : Decoding Bool := fun tape =>
  match header with
  | none => .ok true tape
  | some next => if next.slice = slice then s.restOfSlice next tape else closeSlice tape

theorem lookAhead_eq (s : Setup) (slice : Int32) :
    s.lookAhead slice = nextHeader? >>= s.behind slice := by
  funext tape
  show _ = EStateM.bind _ _ tape
  unfold lookAhead EStateM.bind
  cases nextHeader? tape with
  | error reason tape => rfl
  | ok next tape =>
    cases next with
    | none => rfl
    | some next =>
      show (if _ then _ else _) = if _ then _ else EStateM.bind _ _ tape
      unfold EStateM.bind
      cases handBack tape <;> rfl

theorem restOfSlice_eq (s : Setup) (header : RunHeader) :
    s.restOfSlice header = s.records header >>= fun _ => s.lookAhead header.slice := by
  funext tape
  show _ = EStateM.bind _ _ tape
  unfold EStateM.bind
  cases hrecords : s.records header tape with
  | error reason tape => exact restOfSlice_of_error hrecords
  | ok _ tape => exact restOfSlice_of_ok hrecords

/-- What is left of a slice once a header of it has been read. -/
def opened (s : Setup) (header : RunHeader) : Decoding (Option Decoded) := do
  note [.opened header.slice]
  let ended ← s.restOfSlice header
  return some ⟨header.slice, ended⟩

theorem slice_eq (s : Setup) :
    s.slice? = nextHeader? >>= fun
      | none => pure none
      | some header => s.opened header := by
  funext tape
  show _ = EStateM.bind _ _ tape
  unfold slice? EStateM.bind
  cases nextHeader? tape with
  | error reason tape => rfl
  | ok header tape =>
    cases header with
    | none => rfl
    | some header =>
      dsimp only
      show _ = EStateM.bind _ _ { tape with events := tape.events ++ #[_] }
      rw [← Array.push_eq_append]
      unfold EStateM.bind
      cases s.restOfSlice header _ <;> rfl

/- Reading ahead, side by side. -/

theorem complete_ofBytes (bytes : List UInt8) : Complete (RunHeader.ofBytes bytes) := by
  rw [RunHeader.ofBytes, RunCounts.ofCounts_eq]
  split
  · exact complete_error rfl
  · exact complete_ok _

theorem noted_leftOver (hnoted : Noted noted may) {count : Nat} (h : may.shortage) :
    noted (leftOver count) (leftOver count) := by
  unfold leftOver
  split
  · exact hnoted.nil
  · exact hnoted.same _ rfl trivial fun _ _ => h

theorem lockstep_nextHeader (hrel : Source.Kept rel may) (hnoted : Noted noted may) :
    Lockstep (Tape.Beside rel noted) may (fun header => header = none → may.shortage)
      nextHeader? := by
  rw [nextHeader_eq]
  refine lockstep_bind (lockstep_reading (hrel.upTo _)) fun bytes hbytes => ?_
  unfold headerOf?
  split
  · rename_i hshort
    exact lockstep_bind (beside_note hnoted (noted_leftOver hnoted (hbytes hshort))) fun _ _ =>
      lockstep_pure fun _ => hbytes hshort
  · exact lockstep_map some
      (lockstep_reading (Reading.lockstep_ofExcept (complete_ofBytes bytes))) (by simp)

theorem handBack_eq (tape : Tape) :
    handBack tape = reading (Reading.seek (tape.source.pos - Stored.width RunCounts)) tape := by
  unfold handBack reading Reading.seek
  rcases tape.source.seek (tape.source.pos - Stored.width RunCounts) with ⟨outcome, source⟩
  cases outcome <;> rfl

/-- A header is handed back where one has been read. -/
theorem ends_closeSlice (hrel : Source.Kept rel may) {t t' u u' : Tape} {header : RunHeader}
    (h : t.Beside rel noted u) (h' : t'.Beside rel noted u')
    (hheader : nextHeader? t = .ok (some header) t') :
    Ends (Tape.Beside rel noted) may (fun ended => ended = true → may.shortage) (closeSlice t')
      (closeSlice u') := by
  have hpos := (pos_of_nextHeader hheader).2.1
  have hback : Ends (Tape.Beside rel noted) may (fun _ => True) (handBack t') (handBack u') := by
    rw [handBack_eq, handBack_eq]
    exact ends_reading (hrel.back h.source h'.source hpos) h'.events
  exact hback.bind fun _ _ _ _ _ hst => .ok (by simp) hst

/-- The rest of a slice, over any number of runs: a stream ends with a slice only where it
may run out. -/
theorem ends_restOfSlice (hrel : Source.Kept rel may) (hnoted : Noted noted may)
    (h : s.Beside noted s') (header : RunHeader) (t u : Tape) (htape : t.Beside rel noted u) :
    Ends (Tape.Beside rel noted) may (fun ended => ended = true → may.shortage)
      (s.restOfSlice header t) (s'.restOfSlice header u) := by
  rw [s.restOfSlice_eq, s'.restOfSlice_eq, s.lookAhead_eq, s'.lookAhead_eq]
  refine (beside_records hrel hnoted h header t u htape).bind fun _ t₁ u₁ h₁ _ htape₁ => ?_
  refine (lockstep_nextHeader hrel hnoted t₁ u₁ htape₁).bind fun next t₂ u₂ h₂ hpost htape₂ => ?_
  cases next with
  | none => exact .ok (fun _ => hpost rfl) htape₂
  | some next =>
    show Ends _ _ _ (if _ then _ else _) (if _ then _ else _)
    split
    · exact ends_restOfSlice hrel hnoted h next t₂ u₂ htape₂
    · exact ends_closeSlice hrel htape₁ htape₂ h₂
termination_by t.source.bytes.size - t.source.pos
decreasing_by
  have hrecords := (s.forward_records header).of_ok h₁
  have hpos := hrecords.pos
  have hheader := pos_of_nextHeader h₂
  have hwidth : 0 < Stored.width RunCounts := by decide
  rw [hrecords.bytes] at hheader
  rw [hheader.1]
  omega

theorem beside_slice (hrel : Source.Kept rel may) (hnoted : Noted noted may)
    (h : s.Beside noted s') :
    Correlator.Beside (Tape.Beside rel noted) may
      (fun found => (∀ decoded, found = some decoded → decoded.ended = true) → may.shortage)
      s.slice? s'.slice? := by
  rw [s.slice_eq, s'.slice_eq]
  refine beside_bind (lockstep_nextHeader hrel hnoted) fun header hheader => ?_
  cases header with
  | none => exact lockstep_pure fun _ => hheader rfl
  | some header =>
    have hopened := hnoted.same (.opened header.slice) rfl trivial (by simp)
    refine beside_bind (beside_note hnoted hopened) fun _ _ => ?_
    refine beside_bind (ends_restOfSlice hrel hnoted h header) fun ended hended => ?_
    exact lockstep_pure fun h => hended (h _ rfl)

end Setup

namespace Decoder

/-- Decoders whose setups and streams stand side by side and that have come equally far. -/
structure Beside (rel : Source → Source → Prop) (noted : List Event → List Event → Prop)
    (d e : Decoder) : Prop where
  setup : d.setup.Beside noted e.setup
  slices : d.slices = e.slices
  finished : d.finished = e.finished
  source : rel d.source e.source

/-- The step that a decoder makes of a slice or of what there is in its place. -/
def stepOf (d : Decoder) : EStateM.Result DecodeError Tape (Option Setup.Decoded) → Step
  | .ok (some found) tape =>
    { result := .ok (some found.slice)
      events := tape.events.toList
      decoder := { d with source := tape.source, slices := d.slices + 1, finished := found.ended } }
  | .ok none tape =>
    ⟨.ok none, tape.events.toList, { d with source := tape.source, finished := true }⟩
  | .error reason tape =>
    ⟨.error reason, tape.events.toList, { d with source := tape.source, finished := true }⟩

variable {d e : Decoder}

theorem next_eq (hd : d.finished = false) :
    d.next = d.stepOf (d.setup.slice? { source := d.source }) := by
  rw [next, if_neg (by simp [hd])]
  rcases d.setup.slice? { source := d.source } with ⟨found, tape⟩ | ⟨reason, tape⟩
  · cases found <;> rfl
  · rfl

/-- Decoders side by side take steps side by side, unless the first fails alone, which is the
end of it. -/
theorem next_of_beside (hrel : Source.Kept rel may) (hnoted : Noted noted may)
    (h : d.Beside rel noted e) :
    (d.next.result = e.next.result ∧ noted d.next.events e.next.events ∧
      d.next.decoder.Beside rel noted e.next.decoder) ∨
    d.finished = false ∧ ∃ why, may.failure why ∧ d.Fails (.stream why) := by
  cases hd : d.finished with
  | true =>
    rw [next_of_finished hd, next_of_finished (h.finished.symm.trans hd)]
    exact .inl ⟨rfl, hnoted.nil, h⟩
  | false =>
    have hends := Setup.beside_slice hrel hnoted h.setup { source := d.source }
      { source := e.source } ⟨h.source, hnoted.nil⟩
    rw [next_eq hd, next_eq (h.finished.symm.trans hd)]
    generalize hfirst : d.setup.slice? { source := d.source } = first at hends
    generalize e.setup.slice? { source := e.source } = second at hends
    cases hends with
    | failed hwhy htape => exact .inr ⟨rfl, _, hwhy, fails_of_slice hd hfirst⟩
    | error hshortage htape =>
      exact .inl ⟨rfl, htape.events, h.setup, h.slices, rfl, htape.source⟩
    | @ok found t u hpost htape =>
      cases found with
      | none => exact .inl ⟨rfl, htape.events, h.setup, h.slices, rfl, htape.source⟩
      | some found =>
        exact .inl ⟨rfl, htape.events, h.setup, congrArg (· + 1) h.slices, rfl, htape.source⟩

/-- Where nothing is allowed for, neither of them fails alone. -/
theorem next_of_beside_alike {shortage : Prop} (hrel : Source.Kept rel (.alike shortage))
    (hnoted : Noted noted (.alike shortage)) (h : d.Beside rel noted e) :
    d.next.result = e.next.result ∧ noted d.next.events e.next.events ∧
      d.next.decoder.Beside rel noted e.next.decoder :=
  (next_of_beside hrel hnoted h).resolve_right fun ⟨_, _, hwhy, _⟩ => hwhy

end Decoder
end Correlator
