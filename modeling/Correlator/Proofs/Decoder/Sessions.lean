import Correlator.Proofs.Decoder.Delivery
import Correlator.Proofs.Tally.Agreement
import Mathlib.Data.List.Forall2

/-!
# Callers side by side

Two decoders side by side, each of which is asked for slices by a caller of its own.  What
the decoders note is related by what it does to tallies: entered in related tallies, it gives
related ones.  `reports_beside` says that the callers then see the same numbers, ends, failures
and positions, and related tallies, call by call.
-/

namespace Correlator

theorem noted_keeps {rel : Tally → Tally → Prop} (h : Tally.Lasting rel) (may : Allowance) :
    Noted (Tally.Keeps rel) may where
  nil := fun _ _ htally => htally
  append := by
    intro e e' f f' he hf t u htally
    rw [Tally.enterAll_append, Tally.enterAll_append]
    exact hf _ _ (he t u htally)
  same := by
    intro event hevent hconsistent _ t u htally
    cases event with
    | opened | leftOver | outOfRange => exact htally
    | uvw station r => exact h.uvw station r hconsistent htally
    | occupancy r => exact h.occupancy r hconsistent htally
    | finding | skipped => simp [Event.ofVisibility] at hevent

/-- The same answer on two sides, but for a relation between the tallies of a slice. -/
inductive Alike (rel : Tally → Tally → Prop) :
    Except DecodeError (Option Slice) → Except DecodeError (Option Slice) → Prop
  | slice {t u : Tally} (number : Int32) :
    rel t u → Alike rel (.ok (some ⟨number, t⟩)) (.ok (some ⟨number, u⟩))
  | none : Alike rel (.ok none) (.ok none)
  | error (reason : DecodeError) : Alike rel (.error reason) (.error reason)

structure Report.Beside (rel : Tally → Tally → Prop) (r r' : Report) : Prop where
  found : Alike rel r.found r'.found
  kept : rel r.kept r'.kept
  slices : r.slices = r'.slices
  pos : r.pos = r'.pos

variable {rel : Tally → Tally → Prop} {sources : Source → Source → Prop}

namespace Decoder

variable {d e : Decoder}

theorem beside_next (hsources : Source.Kept sources (.alike True)) (hrel : Tally.Lasting rel)
    (h : d.Beside sources (Tally.Keeps rel) e) :
    d.next.result = e.next.result ∧ Tally.Keeps rel d.next.events e.next.events ∧
      d.next.decoder.Beside sources (Tally.Keeps rel) e.next.decoder :=
  next_of_beside_alike hsources (noted_keeps hrel _) h

/-- Whatever two tallies held: they are filled alike if they are related once cleared. -/
theorem alike_nextInto (hsources : Source.Kept sources (.alike True)) (hrel : Tally.Lasting rel)
    (h : d.Beside sources (Tally.Keeps rel) e) {t u : Tally} (hclear : rel t.clear u.clear) :
    Alike rel (d.next.taken (d.nextInto t).2) (e.next.taken (e.nextInto u).2) := by
  obtain ⟨hresult, hevents, -⟩ := beside_next hsources hrel h
  unfold Step.taken
  show Alike rel (d.next.result.map (Option.map (Slice.mk · (if d.finished then t else _))))
    (e.next.result.map (Option.map (Slice.mk · (if e.finished then u else _))))
  rw [← hresult, ← h.finished]
  cases hd : d.finished with
  | true =>
    rw [next_of_finished hd]
    exact .none
  | false =>
    rcases d.next.result with reason | _ | number
    · exact .error reason
    · exact .none
    · exact .slice number (hevents _ _ hclear)

theorem rel_nextInto (hsources : Source.Kept sources (.alike True)) (hrel : Tally.Lasting rel)
    (h : d.Beside sources (Tally.Keeps rel) e) {t u : Tally} (htally : rel t u) :
    rel (d.nextInto t).2 (e.nextInto u).2 := by
  obtain ⟨-, hevents, -⟩ := beside_next hsources hrel h
  show rel (if d.finished then t else _) (if e.finished then u else _)
  rw [← h.finished]
  split
  · exact htally
  · exact hevents _ _ (hrel.clear htally)

end Decoder

namespace Session

/-- Sessions with decoders side by side, whose tallies are related, those that are kept and
those that are made for a slice. -/
structure Beside (rel : Tally → Tally → Prop) (s t : Session) : Prop where
  decoder : s.decoder.Beside (Source.Matches (.alike True)) (Tally.Keeps rel) t.decoder
  room : rel (.empty s.decoder.stations) (.empty t.decoder.stations)
  kept : rel s.kept t.kept

variable {s t : Session}

theorem Beside.report (h : s.Beside rel t) {found found' : Except DecodeError (Option Slice)}
    (hfound : Alike rel found found') (events events' : List Event) :
    Report.Beside rel (s.report found events) (t.report found' events') :=
  ⟨hfound, h.kept, h.decoder.slices, h.decoder.source.pos⟩

theorem Beside.call (hrel : Tally.Lasting rel) (h : s.Beside rel t) (call : Call) :
    Report.Beside rel (s.call call).1 (t.call call).1 ∧
      (s.call call).2.Beside rel (t.call call).2 := by
  have hsources := Reading.kept_matches (.alike True)
  obtain ⟨-, -, hnext⟩ := Decoder.beside_next hsources hrel h.decoder
  have hroom : rel (.empty s.decoder.next.decoder.stations)
      (.empty t.decoder.next.decoder.stations) := by
    rw [Decoder.stations_next, Decoder.stations_next]
    exact h.room
  cases call with
  | slice =>
    have hsession : Beside rel ⟨s.decoder.next.decoder, s.kept⟩ ⟨t.decoder.next.decoder, t.kept⟩ :=
      ⟨hnext, hroom, h.kept⟩
    have hfound := Decoder.alike_nextInto hsources hrel h.decoder (hrel.clear h.room)
    exact ⟨hsession.report hfound _ _, hsession⟩
  | into =>
    have hsession : Beside rel ⟨s.decoder.next.decoder, (s.decoder.nextInto s.kept).2⟩
        ⟨t.decoder.next.decoder, (t.decoder.nextInto t.kept).2⟩ :=
      ⟨hnext, hroom, Decoder.rel_nextInto hsources hrel h.decoder h.kept⟩
    have hfound := Decoder.alike_nextInto hsources hrel h.decoder (hrel.clear h.kept)
    exact ⟨hsession.report hfound _ _, hsession⟩

theorem reports_beside (hrel : Tally.Lasting rel) (h : s.Beside rel t) (calls : List Call) :
    List.Forall₂ (Report.Beside rel) (s.run calls) (t.run calls) := by
  induction calls generalizing s t with
  | nil => exact .nil
  | cons call calls ih =>
    obtain ⟨hreport, hnext⟩ := h.call hrel call
    exact .cons hreport (ih hnext)

end Session
end Correlator
