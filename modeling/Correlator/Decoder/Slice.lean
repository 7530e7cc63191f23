import Correlator.Decoder.Setup

/-!
# Decoding one slice

A slice is one or more runs with the same slice number.  That it is over shows only
in the next run header, so that header is read ahead and handed back to the stream
when it belongs to another slice.
-/

namespace Correlator

/-- The stream and what has happened so far. -/
structure Tape where
  source : Source
  events : Array Event := #[]

/-- Whatever is noted, the stream moves on. -/
def Tape.Onward (tape tape' : Tape) : Prop := tape.source.Onward tape'.source

theorem Tape.Onward.trans {tape tape' tape'' : Tape} (h : tape.Onward tape')
    (h' : tape'.Onward tape'') : tape.Onward tape'' :=
  Source.Onward.trans h h'

abbrev Decoding (α : Type) := EStateM DecodeError Tape α

namespace Decoding

def reading {α : Type} (step : Reading α) : Decoding α := fun tape =>
  match step tape.source with
  | .ok a source => .ok a { tape with source }
  | .error reason source => .error reason { tape with source }

def note (events : List Event) : Decoding Unit := fun tape =>
  .ok () { tape with events := tape.events ++ events.toArray }

/-- A step that leaves the bytes as they are and never goes back. -/
def Forward {α : Type} (step : Decoding α) : Prop := Along Tape.Onward step

theorem forward_note (events : List Event) : Forward (note events) :=
  fun tape => .refl tape.source

theorem forward_reading {α : Type} {step : Reading α} (h : step.Forward) :
    Forward (reading step) := by
  intro tape
  have hstep := h tape.source
  unfold reading
  cases hs : step tape.source with
  | ok a source | error reason source =>
    rw [hs] at hstep
    exact hstep

/-- Read a number of records and note what becomes of each. -/
def each {α : Type} (step : Reading α) (judge : α → Except DecodeError (List Event)) :
    Nat → Decoding Unit
  | 0 => pure ()
  | count + 1 => do
    let record ← reading step
    let events ← reading (Reading.ofExcept (judge record))
    note events
    each step judge count

theorem forward_each {α : Type} {step : Reading α} (h : step.Forward)
    (judge : α → Except DecodeError (List Event)) (count : Nat) :
    Forward (each step judge count) := by
  induction count with
  | zero => exact along_pure (fun tape => .refl tape.source) ()
  | succ count ih =>
    exact along_bind Tape.Onward.trans (forward_reading h) fun _ =>
      along_bind Tape.Onward.trans (forward_reading (Reading.forward_ofExcept _)) fun _ =>
        along_bind Tape.Onward.trans (forward_note _) fun _ => ih

end Decoding

namespace Setup

open Decoding

/-- The records that a run header announces. -/
def records (s : Setup) (header : RunHeader) : Decoding Unit := do
  each Uvw.read (judgeUvw header.slice) header.uvws
  each Occupancy.read judgeOccupancy header.occupancies
  each (Visibility.read s.channels) (s.judgeVisibility header.slice) header.visibilities

/-- The next run header, if the stream goes on.  A few bytes that are no header are
noted and ignored. -/
def nextHeader? : Decoding (Option RunHeader) := fun tape =>
  match tape.source.fill (Stored.width RunCounts) with
  | (.error reason, source) => .error (.stream reason) { tape with source }
  | (.ok [], source) => .ok none { tape with source }
  | (.ok bytes, source) =>
    if bytes.length < Stored.width RunCounts then
      .ok none { source, events := tape.events.push (.leftOver bytes.length) }
    else
      match RunHeader.ofBytes bytes with
      | .error reason => .error reason { tape with source }
      | .ok header => .ok (some header) { tape with source }

/-- Hand a run header back to the stream. -/
def handBack : Decoding Unit := fun tape =>
  match tape.source.seek (tape.source.pos - Stored.width RunCounts) with
  | (.error reason, source) => .error (.stream reason) { tape with source }
  | (.ok (), source) => .ok () { tape with source }

theorem handBack_ok {tape tape' : Tape} (h : handBack tape = .ok () tape') :
    tape' = { tape with
      source := { tape.source with pos := tape.source.pos - Stored.width RunCounts } } := by
  unfold handBack Source.seek at h
  cases hfault : tape.source.seekFault <;> simp only [hfault] at h
  · simp only [EStateM.Result.ok.injEq, true_and] at h
    subst h
    simp only [hfault]
  · simp at h

theorem forward_records (s : Setup) (header : RunHeader) : Forward (s.records header) :=
  along_bind Tape.Onward.trans (forward_each Uvw.forward_read _ _) fun _ =>
    along_bind Tape.Onward.trans (forward_each Occupancy.forward_read _ _) fun _ =>
      forward_each (Visibility.forward_read _) _ _

/-- A run header that was read lies within the bytes. -/
theorem pos_of_nextHeader {tape tape' : Tape} {header : RunHeader}
    (h : nextHeader? tape = .ok (some header) tape') :
    tape'.source.bytes = tape.source.bytes ∧
      tape.source.pos + Stored.width RunCounts ≤ tape'.source.pos ∧
      tape'.source.pos ≤ tape.source.bytes.size := by
  unfold nextHeader? at h
  have hbytes := tape.source.bytes_fill (Stored.width RunCounts)
  split at h
  · simp at h
  · simp at h
  · rename_i bytes source hne heq
    rw [heq] at hbytes
    have hpos := Source.pos_of_fill_ok heq
    split at h
    · simp at h
    · rename_i hlen
      split at h
      · simp at h
      · simp only [EStateM.Result.ok.injEq, Option.some.injEq] at h
        obtain ⟨-, rfl⟩ := h
        exact ⟨hbytes, by dsimp only; omega, hpos.2.resolve_left fun hnil => hne hnil⟩

/-- The rest of a slice, from the records of a run whose header has been read.  Says
whether the stream has ended with the slice. -/
def restOfSlice (s : Setup) (header : RunHeader) (tape : Tape) :
    EStateM.Result DecodeError Tape Bool :=
  match _h₁ : s.records header tape with
  | .error reason tape₁ => .error reason tape₁
  | .ok () tape₁ =>
    match _h₂ : nextHeader? tape₁ with
    | .error reason tape₂ => .error reason tape₂
    | .ok none tape₂ => .ok true tape₂
    | .ok (some next) tape₂ =>
      if next.slice = header.slice then s.restOfSlice next tape₂
      else
        match handBack tape₂ with
        | .error reason tape₃ => .error reason tape₃
        | .ok () tape₃ => .ok false tape₃
termination_by tape.source.bytes.size - tape.source.pos
decreasing_by
  have h₁ := (s.forward_records header).of_ok _h₁
  have hpos := h₁.pos
  have h₂ := pos_of_nextHeader _h₂
  have hwidth : 0 < Stored.width RunCounts := by decide
  rw [h₁.bytes] at h₂
  rw [h₂.1]
  omega

/-- When a slice is over and the stream goes on, the stream stands no earlier than
where the records began, and not past the end. -/
theorem pos_of_restOfSlice (s : Setup) (header : RunHeader) (tape : Tape) {tape' : Tape}
    (h : s.restOfSlice header tape = .ok false tape') :
    tape'.source.bytes = tape.source.bytes ∧ tape.source.pos ≤ tape'.source.pos ∧
      tape'.source.pos ≤ tape.source.bytes.size := by
  fun_induction restOfSlice s header tape with
  | case1 => simp at h
  | case2 => simp at h
  | case3 => simp at h
  | case4 header tape tape₁ h₁ next tape₂ h₂ _ ih =>
    have hrecords := (s.forward_records header).of_ok h₁
    have hpos := hrecords.pos
    have hheader := pos_of_nextHeader h₂
    have hrest := ih h
    rw [hrecords.bytes] at hheader
    rw [hheader.1] at hrest
    exact ⟨hrest.1, by omega, hrest.2.2⟩
  | case5 => simp at h
  | case6 header tape tape₁ h₁ next tape₂ h₂ _ tape₃ h₃ =>
    have hrecords := (s.forward_records header).of_ok h₁
    have hpos := hrecords.pos
    have hheader := pos_of_nextHeader h₂
    rw [hrecords.bytes] at hheader
    simp only [EStateM.Result.ok.injEq, true_and] at h
    subst h
    rw [handBack_ok h₃]
    exact ⟨hheader.1, by dsimp only; omega, by dsimp only; omega⟩

/-- What a decoded slice is. -/
structure Decoded where
  slice : Int32
  /-- Whether the stream has ended with it. -/
  ended : Bool
deriving DecidableEq

/-- The next slice, if the stream goes on. -/
def slice? (s : Setup) : Decoding (Option Decoded) := fun tape =>
  match nextHeader? tape with
  | .error reason tape => .error reason tape
  | .ok none tape => .ok none tape
  | .ok (some header) tape =>
    match s.restOfSlice header
        { tape with events := tape.events.push (.opened header.slice) } with
    | .error reason tape => .error reason tape
    | .ok ended tape => .ok (some ⟨header.slice, ended⟩) tape

/-- A slice with which the stream does not end moves the stream on. -/
theorem pos_of_slice (s : Setup) {tape tape' : Tape} {found : Decoded}
    (h : s.slice? tape = .ok (some found) tape') (hended : found.ended = false) :
    tape'.source.bytes = tape.source.bytes ∧
      tape.source.pos + Stored.width RunCounts ≤ tape'.source.pos ∧
      tape'.source.pos ≤ tape.source.bytes.size := by
  unfold slice? at h
  split at h
  · simp at h
  · simp at h
  · rename_i header tape₁ h₁
    have hheader := pos_of_nextHeader h₁
    split at h
    · simp at h
    · rename_i ended tape₂ h₂
      simp only [EStateM.Result.ok.injEq, Option.some.injEq] at h
      obtain ⟨rfl, rfl⟩ := h
      simp only at hended
      subst hended
      have hrest := pos_of_restOfSlice s header _ h₂
      simp only at hrest
      rw [hheader.1] at hrest
      exact ⟨hrest.1, by omega, hrest.2.2⟩

end Setup
end Correlator
