import Correlator.Command.Survey
import Correlator.Proofs.Tally.Agreement

/-!
# The lines of a report

Every line that a survey logs begins with a character that tells the headings of slices, and
the warning that a slice was dropped, from all others.  A report does not show how much room
its tally has, so tallies that agree are reported alike.
-/

namespace Correlator

/-! ## How lines begin -/

namespace LogLine

def begins (start : String) (l : LogLine) : Bool := start.toList.isPrefixOf l.text.toList

/-- The headings of slices. -/
def isHeading : LogLine → Bool := begins "---------- time slice "

/-- The warning that the last slice is not all there. -/
def isDropping : LogLine → Bool := begins "Dropping the final, incomplete time slice: "

variable {start lead rest : String} {c c' : Char} {level : Level}

theorem begins_self (level : Level) (start : String) : begins start ⟨level, start⟩ = true :=
  List.isPrefixOf_iff_prefix.mpr (List.prefix_refl _)

theorem begins_append (h : begins start ⟨level, lead⟩ = true) :
    begins start ⟨level, lead ++ rest⟩ = true := by
  have hlead := List.isPrefixOf_iff_prefix.mp h
  refine List.isPrefixOf_iff_prefix.mpr ?_
  rw [String.toList_append]
  exact hlead.trans (List.prefix_append _ _)

theorem not_begins {l : LogLine} (hl : l.text.toList.head? = some c)
    (hstart : start.toList.head? = some c') (hne : c' ≠ c) : l.begins start = false := by
  refine Bool.eq_false_iff.mpr fun h => hne ?_
  obtain ⟨rest, hrest⟩ := List.isPrefixOf_iff_prefix.mp h
  rw [← hrest, List.head?_append, hstart, Option.some_or] at hl
  exact Option.some.inj hl

theorem not_isHeading {l : LogLine} (hl : l.text.toList.head? = some c) (hne : '-' ≠ c) :
    l.isHeading = false :=
  not_begins hl rfl hne

theorem not_isDropping {l : LogLine} (hl : l.text.toList.head? = some c) (hne : 'D' ≠ c) :
    l.isDropping = false :=
  not_begins hl rfl hne

/-- The first character of a text with something in it stays first. -/
theorem head_append (h : lead.toList.head? = some c) : (lead ++ rest).toList.head? = some c := by
  rw [String.toList_append, List.head?_append, h, Option.some_or]

end LogLine

open LogLine

namespace ReportLine

theorem head_channelText (c : Channel) : (channelText c).toList.head? = some 'f' := by
  unfold channelText
  iterate 5 refine head_append ?_
  rfl

/-- The character that a line begins with. -/
def first : ReportLine → Char
  | .heading .. => '-'
  | .uvw .. => 'u'
  | .stationName _ => 'S'
  | .baseline .. => 'B'
  | .levels .. | .cross .. | .auto .. => 'f'

theorem head_text (l : ReportLine) : l.text.toList.head? = some l.first := by
  cases l with
  | heading =>
    iterate 4 refine head_append ?_
    rfl
  | uvw =>
    iterate 9 refine head_append ?_
    rfl
  | stationName => exact head_append rfl
  | levels =>
    iterate 7 refine head_append ?_
    rfl
  | baseline =>
    iterate 3 refine head_append ?_
    rfl
  | cross channel =>
    iterate 4 refine head_append ?_
    exact head_channelText channel
  | auto channel =>
    iterate 4 refine head_append ?_
    exact head_channelText channel

theorem isDropping_line (l : ReportLine) : l.line.isDropping = false := by
  refine not_isDropping l.head_text ?_
  cases l <;> simp [first]

theorem isHeading_heading (number : Int32) (label : TimeLabel) :
    (heading number label).line.isHeading = true := by
  iterate 4 refine begins_append ?_
  exact begins_self _ _

theorem isHeading_line {l : ReportLine} (h : '-' ≠ l.first) : l.line.isHeading = false :=
  not_isHeading l.head_text h

end ReportLine

theorem Event.head_line {event : Event} {l : LogLine} (h : event.line? = some l) :
    ∃ c, l.text.toList.head? = some c ∧ '-' ≠ c ∧ 'D' ≠ c := by
  cases event with
  | opened =>
    rw [← Option.some.inj h]
    exact ⟨'d', head_append rfl, by decide, by decide⟩
  | leftOver =>
    rw [← Option.some.inj h]
    exact ⟨'I', head_append (head_append rfl), by decide, by decide⟩
  | outOfRange =>
    rw [← Option.some.inj h]
    exact ⟨'S', head_append (head_append (head_append rfl)), by decide, by decide⟩
  | skipped =>
    rw [← Option.some.inj h]
    exact ⟨'S', head_append (head_append (head_append rfl)), by decide, by decide⟩
  | uvw | occupancy | finding => cases h

/-! ## What a report shows of a tally -/

namespace Slots

variable {α β : Type} {slots slots' : Slots α}

theorem mem_zipIdx_replicate {count start : Nat} {entry : List α × Nat}
    (h : entry ∈ (List.replicate count ([] : List α)).zipIdx start) : entry.1 = [] :=
  List.eq_of_mem_replicate (List.fst_mem_of_mem_zipIdx h)

theorem Agree.occupied (h : slots.Agree slots') : slots.occupied = slots'.occupied := by
  have hsame : ∀ (row : Slots α) (count : Nat),
      Slots.occupied (row ++ List.replicate count []) = row.occupied := by
    intro row count
    have hnone : (((List.replicate count ([] : List α)).zipIdx row.length).filter
        fun entry => !entry.1.isEmpty) = [] := by
      refine List.filter_eq_nil_iff.mpr fun entry hentry => ?_
      rw [mem_zipIdx_replicate hentry]
      exact Bool.false_ne_true
    unfold Slots.occupied
    rw [List.zipIdx_append, Nat.zero_add, List.filter_append, hnone, List.append_nil]
  obtain ⟨row, count, count', rfl, rfl⟩ := h
  rw [hsame, hsame]

theorem Agree.flatMap_zipIdx (h : slots.Agree slots') (f : List α × Nat → List β)
    (hf : ∀ index, f ([], index) = []) : slots.zipIdx.flatMap f = slots'.zipIdx.flatMap f := by
  have hsame : ∀ (row : Slots α) (count : Nat),
      (row ++ List.replicate count []).zipIdx.flatMap f = row.zipIdx.flatMap f := by
    intro row count
    have hnone : ((List.replicate count ([] : List α)).zipIdx row.length).flatMap f = [] := by
      refine List.flatMap_eq_nil_iff.mpr fun entry hentry => ?_
      obtain ⟨values, index⟩ := entry
      have hvalues : values = [] := mem_zipIdx_replicate hentry
      rw [hvalues]
      exact hf index
    rw [List.zipIdx_append, Nat.zero_add, List.flatMap_append, hnone, List.append_nil]
  obtain ⟨row, count, count', rfl, rfl⟩ := h
  rw [hsame, hsame]

end Slots

/-- Room that is not used does not show. -/
theorem ReportStyle.report_of_agrees (style : ReportStyle) {t u : Tally} (h : t.Agrees u)
    (number : Int32) (label : TimeLabel) :
    style.report ⟨number, t⟩ label = style.report ⟨number, u⟩ label := by
  have huvws : style.uvwLines t = style.uvwLines u := h.uvws.flatMap_zipIdx _ fun _ => rfl
  have hstations : style.stationLines t = style.stationLines u := by
    unfold stationLines
    rw [h.occupancies.occupied]
  have hbaselines : style.baselineLines t = style.baselineLines u := by
    unfold baselineLines
    rw [h.findings]
  unfold report
  rw [huvws, hstations, hbaselines]

theorem ReportStyle.first_ne_of_mem {style : ReportStyle} {t : Tally} {l : ReportLine}
    (h : l ∈ style.uvwLines t ++ style.stationLines t ++ style.baselineLines t) :
    '-' ≠ l.first := by
  simp only [uvwLines, stationLines, baselineLines, List.mem_append, List.mem_flatMap,
    List.mem_cons, List.mem_map, Prod.exists] at h
  obtain (⟨_, _, _, _, _, rfl⟩ | ⟨_, _, _, rfl | ⟨_, _, rfl⟩⟩) | ⟨_, _, _, rfl | ⟨f, _, rfl⟩⟩ := h
  · simp [ReportLine.first]
  · simp [ReportLine.first]
  · simp [ReportLine.ofOccupancy, ReportLine.first]
  · simp [ReportLine.first]
  · unfold ReportLine.ofFinding
    split <;> simp [ReportLine.first]

namespace Survey

variable (s : Survey) (slice : Slice)

/-- The heading of a slice in the log. -/
def heading : LogLine :=
  (ReportLine.heading slice.number (s.header.sliceLabel slice.number)).line

theorem headings_sliceLines : (s.sliceLines slice).filter isHeading = [s.heading slice] := by
  have hrest : ((s.style.uvwLines slice.tally ++ s.style.stationLines slice.tally ++
      s.style.baselineLines slice.tally).map ReportLine.line).filter isHeading = [] := by
    refine List.filter_eq_nil_iff.mpr fun l hl => ?_
    obtain ⟨line, hline, rfl⟩ := List.mem_map.mp hl
    rw [ReportLine.isHeading_line (ReportStyle.first_ne_of_mem hline)]
    exact Bool.false_ne_true
  unfold sliceLines ReportStyle.report
  rw [List.map_cons, List.filter_cons_of_pos (ReportLine.isHeading_heading _ _), hrest]
  rfl

theorem droppings_sliceLines : (s.sliceLines slice).filter isDropping = [] := by
  refine List.filter_eq_nil_iff.mpr fun l hl => ?_
  obtain ⟨line, -, rfl⟩ := List.mem_map.mp hl
  rw [ReportLine.isDropping_line]
  exact Bool.false_ne_true

end Survey
end Correlator
