import Correlator.Proofs.Command.Report
import Correlator.Proofs.Decoder.Delivery
import Correlator.Proofs.Decoder.Turns

/-!
# A survey and a walk

A survey decodes slice after slice into one tally, on a stream that was opened for it.
`Decoder.Walk` asks for slice after slice in tallies of their own.  Where both begin on streams
that deliver the same, the survey reports the slices of the walk and ends as the walk does,
but for a stream that ends too early, which a survey forgives (`Survey.walk_eq`).
-/

namespace Correlator

open LogLine

/-- A slice, and what is logged until it is found. -/
structure Visit where
  slice : Slice
  log : List LogLine

namespace Decoder

/-- What the next step logs. -/
def stepLog (d : Decoder) : List LogLine := d.nextSlice.1.events.filterMap Event.line?

/-- Ask for one slice after another, each in a new tally, until there is none: which slices
are found, what is logged after the last of them, and the failure that it ends with, if any. -/
inductive Walk : Decoder → List Visit → List LogLine → Option DecodeError → Prop
  | ended {d : Decoder} : d.nextSlice.2 = .ok none → Walk d [] d.stepLog none
  | failed {d : Decoder} {reason : DecodeError} :
    d.nextSlice.2 = .error reason → Walk d [] d.stepLog (some reason)
  | slice {d : Decoder} {slice : Slice} {visits : List Visit} {last : List LogLine}
    {failure : Option DecodeError} : d.nextSlice.2 = .ok (some slice) →
      Walk d.nextSlice.1.decoder visits last failure →
        Walk d (⟨slice, d.stepLog⟩ :: visits) last failure

variable {d e : Decoder} {number : Int32} {slice : Slice} {reason : DecodeError}

theorem result_eq (d : Decoder) :
    d.next.result = d.nextSlice.2.map (Option.map Slice.number) := by
  rw [show d.nextSlice.2 = _ from answer_zero d]
  rcases d.next.result with reason | _ | number <;> rfl

theorem tally_of_slice (h : d.nextSlice.2 = .ok (some slice)) :
    slice.tally = (Tally.empty d.stations).enterAll d.next.events := by
  have hanswer : d.answer 0 = .ok (some slice) := h
  rw [answer_zero, result_eq, h] at hanswer
  rw [← Option.some.inj (Except.ok.inj hanswer)]

/-- Of two decoders that are delivered the same, what the next step of one finds and logs is
what that of the other does. -/
theorem step_of_alike (h : d.Matches (.alike True) e) :
    d.next.result = e.nextSlice.2.map (Option.map Slice.number) ∧ d.stepLog = e.stepLog ∧
      d.next.decoder.Matches (.alike True) e.next.decoder := by
  obtain ⟨hresult, hevents, hnext⟩ := next_of_alike h
  exact ⟨hresult.trans e.result_eq, congrArg (List.filterMap Event.line?) hevents, hnext⟩

/-- Every walk comes to an end, as every slice leaves less to decode. -/
theorem exists_walk (d : Decoder) : ∃ visits last failure, d.Walk visits last failure := by
  induction hleft : d.left using Nat.strongRecOn generalizing d with
  | _ left ih =>
    rcases hslice : d.nextSlice.2 with reason | _ | slice
    · exact ⟨_, _, _, .failed hslice⟩
    · exact ⟨_, _, _, .ended hslice⟩
    · have hresult : d.next.result = .ok (some slice.number) := by
        rw [result_eq, hslice]
        rfl
      have hless := hleft ▸ d.left_next_lt hresult
      obtain ⟨visits, last, failure, hwalk⟩ := ih d.next.decoder.left hless d.next.decoder rfl
      exact ⟨_, _, _, .slice hslice hwalk⟩

end Decoder

namespace Survey

variable (s : Survey) {d e : Decoder} {kept : Tally} {number : Int32} {reason : DecodeError}
  {visits : List Visit} {last : List LogLine} {failure : Option DecodeError}

/- The three ways to go on with a survey. -/

theorem walk_of_slice (h : d.next.result = .ok (some number)) :
    s.walk d kept =
      (d.stepLog ++ s.sliceLines ⟨number, (d.nextInto kept).2⟩ ++
          (s.walk d.next.decoder (d.nextInto kept).2).1,
        (s.walk d.next.decoder (d.nextInto kept).2).2) := by
  rw [walk]
  split <;> rename_i hresult <;> have hsame := h.symm.trans hresult
  · rw [Option.some.inj (Except.ok.inj hsame)]
    rfl
  · cases hsame
  · cases hsame

theorem walk_of_none (h : d.next.result = .ok none) :
    s.walk d kept = (d.stepLog ++ (ending d.next.decoder.slices none).1,
      (ending d.next.decoder.slices none).2) := by
  rw [walk]
  split <;> rename_i hresult <;> have hsame := h.symm.trans hresult
  · cases hsame
  · rfl
  · cases hsame

theorem walk_of_error (h : d.next.result = .error reason) :
    s.walk d kept = (d.stepLog ++ (ending d.next.decoder.slices (some reason)).1,
      (ending d.next.decoder.slices (some reason)).2) := by
  rw [walk]
  split <;> rename_i hresult <;> have hsame := h.symm.trans hresult
  · cases hsame
  · cases hsame
  · rw [Except.error.inj hsame]
    rfl

/-- The tally that is kept shows what a new one would. -/
theorem sliceLines_kept (hmatch : d.Matches (.alike True) e) {slice : Slice}
    (hslice : e.nextSlice.2 = .ok (some slice)) :
    s.sliceLines ⟨slice.number, (d.nextInto kept).2⟩ = s.sliceLines slice := by
  -- A finished decoder would leave the tally as it was, but there is a slice.
  have hd : d.finished = false := by
    refine Bool.eq_false_iff.mpr fun hfinished => ?_
    have hresult := Decoder.result_eq e
    rw [Decoder.next_of_finished (hmatch.finished.symm.trans hfinished), hslice] at hresult
    cases hresult
  have hevents := (Decoder.next_of_alike hmatch).2.1
  have hagrees : (d.nextInto kept).2.Agrees slice.tally := by
    rw [Decoder.tally_of_slice hslice, ← hevents]
    show Tally.Agrees (if d.finished then kept else kept.clear.enterAll d.next.events) _
    rw [hd, if_neg Bool.false_ne_true, ← Tally.clear_empty e.stations]
    exact Tally.keeps_agrees _ _ _ (Tally.agrees_clear _ _)
  unfold sliceLines
  rw [ReportStyle.report_of_agrees s.style hagrees]

/-- A survey reports the slices of a walk, with what is logged on the way, and ends as the
walk does. -/
theorem walk_eq (hwalk : e.Walk visits last failure) (hmatch : d.Matches (.alike True) e) :
    s.walk d kept =
      (visits.flatMap (fun visit => visit.log ++ s.sliceLines visit.slice) ++ last ++
          (ending (d.slices + visits.length) failure).1,
        (ending (d.slices + visits.length) failure).2) := by
  -- From slice to slice the survey goes on with another decoder and with what the tally kept.
  induction hwalk generalizing d kept with
  | @ended e h =>
    obtain ⟨hresult, hlog, -⟩ := Decoder.step_of_alike hmatch
    have hnone : d.next.result = .ok none := by
      rw [hresult, h]
      rfl
    have hslices : d.next.decoder.slices = d.slices := by
      rw [Decoder.slices_next, hnone]
      rfl
    rw [walk_of_none s hnone, hslices, hlog]
    rfl
  | @failed e reason h =>
    obtain ⟨hresult, hlog, -⟩ := Decoder.step_of_alike hmatch
    have herror : d.next.result = .error reason := by
      rw [hresult, h]
      rfl
    have hslices : d.next.decoder.slices = d.slices := by
      rw [Decoder.slices_next, herror]
      rfl
    rw [walk_of_error s herror, hslices, hlog]
    rfl
  | @slice e slice visits last failure h _ ih =>
    obtain ⟨hresult, hlog, hnext⟩ := Decoder.step_of_alike hmatch
    have hsome : d.next.result = .ok (some slice.number) := by
      rw [hresult, h]
      rfl
    have hslices : d.next.decoder.slices = d.slices + 1 := by
      rw [Decoder.slices_next, hsome]
      rfl
    rw [walk_of_slice s hsome, s.sliceLines_kept hmatch h, ih hnext, hslices, hlog]
    simp only [List.flatMap_cons, List.length_cons, List.append_assoc, Nat.add_assoc,
      Nat.add_comm 1]

end Survey

/-! ## What stands in the log -/

/-- A line that says neither that a slice was found nor that one was dropped. -/
def LogLine.Quiet (l : LogLine) : Prop := l.isHeading = false ∧ l.isDropping = false

theorem Decoder.quiet_stepLog (d : Decoder) : ∀ l ∈ d.stepLog, l.Quiet := by
  intro l hl
  obtain ⟨event, -, hevent⟩ := List.mem_filterMap.mp hl
  obtain ⟨c, hc, hdash, hd⟩ := Event.head_line hevent
  exact ⟨not_isHeading hc hdash, not_isDropping hc hd⟩

theorem Decoder.Walk.quiet {d : Decoder} {visits : List Visit} {last : List LogLine}
    {failure : Option DecodeError} (h : d.Walk visits last failure) :
    (∀ visit ∈ visits, ∀ l ∈ visit.log, l.Quiet) ∧ ∀ l ∈ last, l.Quiet := by
  induction h with
  | ended | failed => exact ⟨by simp, quiet_stepLog _⟩
  | slice _ _ ih => exact ⟨List.forall_mem_cons.mpr ⟨quiet_stepLog _, ih.1⟩, ih.2⟩

theorem filter_quiet {lines : List LogLine} (h : ∀ l ∈ lines, l.Quiet) :
    lines.filter isHeading = [] ∧ lines.filter isDropping = [] := by
  constructor
  · exact List.filter_eq_nil_iff.mpr fun l hl => Bool.not_eq_true _ ▸ (h l hl).1
  · exact List.filter_eq_nil_iff.mpr fun l hl => Bool.not_eq_true _ ▸ (h l hl).2

namespace Survey

theorem quiet_endLine (slices : Nat) : (endLine slices).Quiet := by
  have hhead : (endLine slices).text.toList.head? = some 'R' := head_append (head_append rfl)
  exact ⟨not_isHeading hhead (by decide), not_isDropping hhead (by decide)⟩

theorem isHeading_droppingLine (reason : DecodeError) : (droppingLine reason).isHeading = false :=
  not_isHeading (head_append rfl) (show '-' ≠ 'D' by decide)

theorem isDropping_droppingLine (reason : DecodeError) : (droppingLine reason).isDropping = true :=
  begins_append (begins_self _ _)

/-- What is logged at the end about a slice that was cut off. -/
def dropped : Option DecodeError → List LogLine
  | none => []
  | some reason => if reason.isEndOfStream then [droppingLine reason] else []

theorem filter_ending (slices : Nat) (failure : Option DecodeError) :
    (ending slices failure).1.filter isHeading = [] ∧
      (ending slices failure).1.filter isDropping = dropped failure := by
  have hend := quiet_endLine slices
  cases failure with
  | none => simp [ending, dropped, hend.1, hend.2]
  | some reason =>
    cases hreason : reason.isEndOfStream with
    | true =>
      simp [ending, dropped, hreason, hend.1, hend.2, isHeading_droppingLine,
        isDropping_droppingLine]
    | false => simp [ending, dropped, hreason]

variable (s : Survey) {d : Decoder} {visits : List Visit} {last : List LogLine}
  {failure : Option DecodeError}

theorem filter_visits (hquiet : ∀ visit ∈ visits, ∀ l ∈ visit.log, l.Quiet) :
    (visits.flatMap fun visit => visit.log ++ s.sliceLines visit.slice).filter isHeading =
        visits.map (fun visit => s.heading visit.slice) ∧
      (visits.flatMap fun visit => visit.log ++ s.sliceLines visit.slice).filter isDropping
        = [] := by
  induction visits with
  | nil => exact ⟨rfl, rfl⟩
  | cons visit visits ih =>
    obtain ⟨hvisit, hvisits⟩ := List.forall_mem_cons.mp hquiet
    obtain ⟨hheadings, hdroppings⟩ := ih hvisits
    obtain ⟨hlog, hlog'⟩ := filter_quiet hvisit
    constructor
    · rw [List.flatMap_cons, List.filter_append, List.filter_append, hheadings, hlog,
        headings_sliceLines]
      rfl
    · rw [List.flatMap_cons, List.filter_append, List.filter_append, hdroppings, hlog',
        droppings_sliceLines]
      rfl

end Survey
end Correlator
