import Correlator.Decoder.Slice
import Correlator.Header.Parse

/-!
# Decoders

A decoder goes through the slices of a stream.  Between slices it keeps the stream,
the number of slices and whether the end was seen, and nothing of what the slices
held.
-/

namespace Correlator

structure Decoder where
  setup : Setup
  /-- Room for stations in a new tally. -/
  stations : Nat
  source : Source
  slices : Nat := 0
  finished : Bool := false

/-- A slice and what was found in it. -/
structure Slice where
  number : Int32
  tally : Tally
deriving DecidableEq

namespace Decoder

/-- A decoder for a stream that stands at the first run.  The names in the header say
how many stations there are, if there are any. -/
def start (header : Header) (settings : Settings) (source : Source)
    (transform : Transform := .inverse) : Decoder where
  setup := { channels := header.channels, settings, transform }
  stations :=
    match header.names? with
    | some ⟨_ :: stations, _⟩ => stations.length + 1
    | _ => settings.stationHint
  source

/-- One step: its result, what happened, and the decoder after it. -/
structure Step where
  result : Except DecodeError (Option Int32)
  events : List Event
  decoder : Decoder

/-- Decode the next slice.  After the end or a failure there is nothing more, and the
stream is left alone. -/
def next (d : Decoder) : Step :=
  if d.finished then ⟨.ok none, [], d⟩
  else
    match d.setup.slice? { source := d.source } with
    | .ok (some found) tape =>
      { result := .ok (some found.slice)
        events := tape.events.toList
        decoder :=
          { d with source := tape.source, slices := d.slices + 1, finished := found.ended } }
    | .ok none tape =>
      ⟨.ok none, tape.events.toList, { d with source := tape.source, finished := true }⟩
    | .error reason tape =>
      ⟨.error reason, tape.events.toList, { d with source := tape.source, finished := true }⟩

/-- Decode the next slice into a tally.  What the tally held is forgotten, unless
there is nothing more to decode. -/
def nextInto (d : Decoder) (tally : Tally) : Step × Tally :=
  let step := d.next
  (step, if d.finished then tally else tally.clear.enterAll step.events)

/-- Decode the next slice into a new tally. -/
def nextSlice (d : Decoder) : Step × Except DecodeError (Option Slice) :=
  let (step, tally) := d.nextInto (.empty d.stations)
  (step, step.result.map (·.map fun number => ⟨number, tally⟩))

/-- An answer as one of a row of slices, which a failure ends. -/
def itemOf : Except DecodeError (Option Slice) → Option (Except DecodeError Slice)
  | .ok slice? => slice?.map .ok
  | .error reason => some (.error reason)

/-- The next of all slices, if there is one more. -/
def nextItem (d : Decoder) : Step × Option (Except DecodeError Slice) :=
  let (step, found) := d.nextSlice
  (step, itemOf found)

/-- How much is left to decode: a decoder that has finished has nothing left, and
every slice moves the others on. -/
def left (d : Decoder) : Nat := if d.finished then 0 else d.source.bytes.size - d.source.pos + 1

theorem left_next_lt (d : Decoder) {slice : Int32} (h : d.next.result = .ok (some slice)) :
    d.next.decoder.left < d.left := by
  have hwidth : 0 < Stored.width RunCounts := by decide
  unfold next at h ⊢
  split at h
  · simp at h
  · rename_i hfinished
    rw [if_neg hfinished]
    split at h
    · rename_i found tape hslice
      simp only [left, hfinished, Bool.false_eq_true, if_false]
      split
      · omega
      · rename_i hended
        have hpos := Setup.pos_of_slice _ hslice (by simpa using hended)
        dsimp only at hpos
        rw [hpos.1]
        omega
    · simp at h
    · simp at h

/-- All steps to the end, which is the last of them. -/
def steps (d : Decoder) : List Step :=
  match _h : d.next.result with
  | .ok (some _) => d.next :: d.next.decoder.steps
  | _ => [d.next]
termination_by d.left
decreasing_by exact d.left_next_lt _h

end Decoder
end Correlator
