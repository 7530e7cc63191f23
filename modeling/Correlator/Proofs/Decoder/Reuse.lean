import Correlator.Proofs.Decoder.Sessions
import Correlator.Proofs.Decoder.Turns
import Correlator.Proofs.Stream.Parallel

/-!
# One tally for all slices

A caller that keeps one tally has every slice filed into what the one before has left.
`reused_tally_agrees` compares it with a caller that takes a new tally each time, behind
another header and on a stream of its own: both see the same, but for room that is not used.
-/

namespace Correlator

/-- What a reply says in whatever form: a slice with its tally, that there is none, or a
failure. -/
def Reply.found : Reply → Except DecodeError (Option Slice)
  | .into found tally => found.map (Option.map (Slice.mk · tally))
  | .slice found => found
  | .item none => .ok none
  | .item (some found) => found.map some

/-- The tally that a slice is decoded into. -/
def Request.tally (stations : Nat) : Request → Tally
  | .into tally => tally
  | .slice | .item => .empty stations

namespace Decoder

def replies (d : Decoder) : List Request → List Reply
  | [] => []
  | request :: requests => (d.serve request).1 :: (d.serve request).2.replies requests

theorem found_itemOf (answer : Except DecodeError (Option Slice)) :
    (Reply.item (itemOf answer)).found = answer := by
  rcases answer with reason | _ | slice <;> rfl

theorem found_serve (d : Decoder) (request : Request) :
    (d.serve request).1.found = d.next.taken (d.nextInto (request.tally d.stations)).2 := by
  cases request with
  | into tally => rfl
  | slice => rfl
  | item => exact found_itemOf _

variable {d e : Decoder} {sources : Source → Source → Prop}

/-- One decoder fills the same tally again and again, the other one fills whatever it is
given: slice by slice, their tallies agree. -/
theorem alike_replies (hsources : Source.Kept sources (.alike True))
    (h : d.Beside sources (Tally.Keeps Tally.Agrees) e) (kept : Tally) (requests : List Request) :
    List.Forall₂ (Alike Tally.Agrees)
      ((Session.run ⟨d, kept⟩ (List.replicate requests.length .into)).map Report.found)
      ((e.replies requests).map Reply.found) := by
  induction requests generalizing d e kept with
  | nil => exact .nil
  | cons request requests ih =>
    obtain ⟨-, -, hnext⟩ := beside_next hsources Tally.lasting_agrees h
    have hfound := alike_nextInto hsources Tally.lasting_agrees h
      (Tally.agrees_clear kept (request.tally e.stations))
    rw [← found_serve] at hfound
    rw [← (e.serve_eq request).2] at hnext
    exact .cons hfound (ih hnext _)

end Decoder

namespace Setup

/-- What becomes of a visibility does not depend on the room for stations. -/
theorem beside_of_hint (channels : Nat) (settings : Settings) (transform : Transform)
    (hint : Nat) :
    Setup.Beside (Tally.Keeps Tally.Agrees) ⟨channels, settings, transform⟩
      ⟨channels, { settings with stationHint := hint }, transform⟩ where
  channels := rfl
  judged := by
    intro slice v _
    show Judged _ (judgeVisibility ⟨channels, settings, transform⟩ slice v)
      (judgeVisibility ⟨channels, settings, transform⟩ slice v)
    cases hjudge : judgeVisibility ⟨channels, settings, transform⟩ slice v with
    | ok events => exact .ok (Tally.keeps_agrees events)
    | error reason => exact .error ((judges_visibility _ slice).complete v reason hjudge)

end Setup

namespace Decoder

/-- Behind headers with the same number of channels, on streams that go on alike, and with the
same settings but for the room for stations: filling one tally again and again, whatever it
held at first, finds the same slices and failures as any other way of asking for slices, and
what is found in a slice differs only in how many unused places for stations there are. -/
theorem reused_tally_agrees (header header' : Header) (settings : Settings) (hint : Nat)
    (source source' : Source) (transform : Transform) (kept : Tally) (requests : List Request)
    (hchannels : header.channels = header'.channels)
    (hsource : source.Parallel source.pos source'.pos source') :
    List.Forall₂ (Alike Tally.Agrees)
      ((Session.run ⟨start header settings source transform, kept⟩
        (List.replicate requests.length .into)).map Report.found)
      (((start header' { settings with stationHint := hint } source' transform).replies
        requests).map Reply.found) := by
  have hsetup : Setup.Beside (Tally.Keeps Tally.Agrees) ⟨header.channels, settings, transform⟩
      ⟨header'.channels, { settings with stationHint := hint }, transform⟩ := by
    rw [← hchannels]
    exact Setup.beside_of_hint header.channels settings transform hint
  have hbeside : (start header settings source transform).Beside
      (Source.Parallel source.pos source'.pos) (Tally.Keeps Tally.Agrees)
      (start header' { settings with stationHint := hint } source' transform) :=
    ⟨hsetup, rfl, rfl, hsource⟩
  exact alike_replies (Source.kept_parallel _ _) hbeside kept requests

/-- Slices 5 and 6, of which only the first has anything in it, coordinates of station 7.  They
are read into a tally with a skipped visibility from elsewhere, behind a header without names,
and slice by slice behind one that names a station: slice 6 comes out empty in both. -/
theorem reused_tally_of_two_slices :
    let runs : List Run := [⟨5, [⟨7, 1, ⟨0⟩, ⟨0⟩, ⟨0⟩⟩], [], []⟩, ⟨6, [], [], []⟩]
    let bytes := runs.flatMap Run.encode
    let header : Header :=
      ⟨64, "N24L1", 2024, 1, 0, 1, 1000000, 1, 1000, .parallel, .plain⟩
    let header' : Header := { header with layout := .withNames {} ⟨["WB"], []⟩ }
    let source : Source := { Source.ofBytes ([1, 2, 3] ++ bytes) with pos := 3 }
    let source' : Source := { Source.ofBytes ([4, 5] ++ bytes) with pos := 2 }
    let kept : Tally := { skipped := [⟨⟨1, 2⟩, ⟨0, 0, 0⟩⟩] }
    header.channels = header'.channels ∧
      source.Parallel source.pos source'.pos source' ∧
      List.Forall₂ (Alike Tally.Agrees)
        ((Session.run ⟨start header {} source, kept⟩ [.into, .into]).map Report.found)
        [.ok (some ⟨5, Tally.addUvw (.empty 1) 7 ⟨7, 1, ⟨0⟩, ⟨0⟩, ⟨0⟩⟩⟩),
          .ok (some ⟨6, .empty 1⟩)] := by
  intro runs bytes header header' source source' kept
  have hsource : source.Parallel source.pos source'.pos source' :=
    Source.parallel_ofBytes [1, 2, 3] [4, 5] bytes
  have hbytes : Transcript.ofBytes 1 source'.ahead = ⟨runs, .clean 0⟩ := by
    decide +kernel
  let e := start header' {} source'
  have hready : e.Ready (Transcript.ofBytes 1 source'.ahead) :=
    ready_ofBytes rfl (by decide) rfl rfl
  rw [hbytes] at hready
  have hfound : (e.replies [.slice, .item]).map Reply.found = [e.answer 0, e.answer 1] :=
    congrArg (fun last => [e.answer 0, last]) (found_itemOf (e.answer 1))
  have hagrees := reused_tally_agrees header header' {} 32 source source' .inverse kept
    [.slice, .item] rfl hsource
  rw [hfound, answer_of_ready hready, answer_of_ready hready] at hagrees
  exact ⟨rfl, hsource, hagrees⟩

end Decoder
end Correlator
