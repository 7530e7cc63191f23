import Correlator.Proofs.Decoder.Consumed
import Correlator.Proofs.Decoder.Faults
import Correlator.Proofs.Transcript.Widths

/-!
# How far decoding moves the stream

Although nearly every slice ends with a step back, it leaves the stream behind all of its
runs, and a run is no narrower than its header.  So there are no more slices than headers
that fit into the bytes, whatever numbers of records these headers declare.
-/

namespace Correlator

namespace Setup

variable {s : Setup} {slice : Int32} {bytes rest : List UInt8}

theorem RunAt.length {run : Run} (h : s.RunAt bytes run rest) :
    bytes.length = run.header.width s.channels + rest.length := by
  obtain ⟨header, -, hparse⟩ := h.records
  have henough := h.enough
  have hlength := Run.length_of_parse hparse
  rw [RunCounts.width_eq, List.length_drop] at hlength
  rw [RunCounts.width_eq] at henough
  omega

/-- How wide some runs are together. -/
def width (s : Setup) : List Run → Nat
  | [] => 0
  | run :: runs => run.header.width s.channels + s.width runs

theorem RunsAt.length {runs : List Run} (h : s.RunsAt slice bytes runs rest) :
    bytes.length = s.width runs + rest.length := by
  induction h with
  | nil bytes => exact (Nat.zero_add _).symm
  | cons hrun _ _ ih => rw [hrun.length, ih, width, Nat.add_assoc]

theorem le_width {runs : List Run} (hne : runs ≠ []) : 16 ≤ s.width runs := by
  cases runs with
  | nil => exact absurd rfl hne
  | cons run runs =>
    rw [width, RunHeader.width]
    omega

end Setup

namespace Decoder

variable {d : Decoder} {number : Int32} {count : Nat}

/-- A step has moved the stream over `runs`, which make up slice `number`, and over the few
bytes behind them if the stream ends there. -/
structure MovesOver (d : Decoder) (number : Int32) (runs : List Run) (rest : List UInt8)
    (skipped : Nat) : Prop where
  ne_nil : runs ≠ []
  runsAt : d.setup.RunsAt number d.source.remaining runs rest
  slice : d.answer 0 = .ok (some (.ofRuns d.setup d.stations runs))
  bytes : d.next.decoder.source.bytes = d.source.bytes
  pos : d.next.decoder.source.pos = d.source.pos + d.setup.width runs + skipped
  ended : d.next.decoder.finished = false ∧ 16 ≤ rest.length ∧ skipped = 0 ∨
    d.next.decoder.finished = true ∧ rest.length < 16 ∧ skipped = rest.length

theorem pos_add_width_eq_size {runs : List Run} {rest : List UInt8} (hne : runs ≠ [])
    (h : d.setup.RunsAt number d.source.remaining runs rest) :
    d.source.pos + d.setup.width runs + rest.length = d.source.bytes.size := by
  have hlength := h.length
  have hwidth := d.setup.le_width hne
  rw [Source.remaining, List.length_drop, Array.length_toList] at hlength
  omega

theorem MovesOver.bounds {runs : List Run} {rest : List UInt8} {skipped : Nat}
    (h : d.MovesOver number runs rest skipped) :
    d.source.pos + 16 ≤ d.next.decoder.source.pos ∧
      d.next.decoder.source.pos ≤ d.source.bytes.size := by
  have hwidth := d.setup.le_width h.ne_nil
  have hend := pos_add_width_eq_size h.ne_nil h.runsAt
  have hpos := h.pos
  rcases h.ended with ⟨-, -, hskipped⟩ | ⟨-, -, hskipped⟩ <;> omega

theorem movesOver_of_sound (hread : d.source.readFault = none) (hseek : d.source.seekFault = none)
    (h : d.next.result = .ok (some number)) :
    ∃ runs rest skipped, d.MovesOver number runs rest skipped := by
  obtain ⟨hd, runs, rest, ended, hne, hruns, hcloses⟩ := runs_of_next h
  obtain ⟨source, hreach, hnext⟩ := next_of_closes hd hread hseek hne hruns hcloses
  have hanswer : d.answer 0 = .ok (some (.ofRuns d.setup d.stations runs)) :=
    answer_zero_of_slice _ hne hruns.slice_eq (by rw [hnext]) (by rw [hnext])
  have hmoved : source.pos + (unread rest ended).length =
      d.source.pos + (d.setup.width runs + rest.length) := by
    rw [hreach.pos, hruns.length]
  rw [Source.ahead_eq_remaining hread] at hruns
  have hpos : source.pos = d.source.pos + d.setup.width runs + ignored rest ended := by
    cases ended <;> simp [unread, ignored] at hmoved ⊢ <;> omega
  refine ⟨runs, rest, ignored rest ended, hne, hruns, hanswer, ?_, ?_, ?_⟩
  · rw [hnext, hreach.bytes]
  · rw [hnext, ← hpos]
  · rw [hnext]
    cases hcloses with
    | ended hshort => exact .inr ⟨rfl, hshort, rfl⟩
    | other hwhole => exact .inl ⟨rfl, hwhole, rfl⟩

/-- A step that gives a slice has not failed, so it does what it would do without failures. -/
theorem exists_movesOver (h : d.next.result = .ok (some number)) :
    ∃ runs rest skipped, d.MovesOver number runs rest skipped := by
  rcases next_of_matches d.matches_sound with ⟨hresult, hevents, hmatch⟩ | ⟨-, why, -, hfails⟩
  · rw [h] at hresult
    obtain ⟨runs, rest, skipped, hmoves⟩ := movesOver_of_sound rfl rfl hresult.symm
    have hanswer : d.answer 0 = d.sound.answer 0 := by
      rw [answer_zero, answer_zero, h, ← hresult, hevents]
      rfl
    refine ⟨runs, rest, skipped, hmoves.ne_nil, hmoves.runsAt, hanswer.trans hmoves.slice,
      hmatch.source.bytes.trans hmoves.bytes, hmatch.source.pos.trans hmoves.pos, ?_⟩
    rw [hmatch.finished]
    exact hmoves.ended
  · obtain ⟨source, events, hnext⟩ := hfails
    simp [hnext] at h

/-- After some slices the stream stands behind at least as many headers. -/
theorem pos_after (h : ∀ earlier < count, ∃ slice, d.answer earlier = .ok (some slice)) :
    (d.after count).source.bytes = d.source.bytes ∧
      d.source.pos + 16 * count ≤ (d.after count).source.pos ∧
      (count = 0 ∨ (d.after count).source.pos ≤ d.source.bytes.size) := by
  induction count with
  | zero => exact ⟨rfl, Nat.le_refl _, .inl rfl⟩
  | succ count ih =>
    obtain ⟨hbytes, hpos, -⟩ := ih fun earlier hearlier => h earlier (by omega)
    obtain ⟨slice, hslice⟩ := h count (by omega)
    obtain ⟨runs, rest, skipped, hmoves⟩ := exists_movesOver (result_of_answer hslice)
    obtain ⟨hfurther, hsize⟩ := hmoves.bounds
    rw [hbytes] at hsize
    rw [after_succ]
    exact ⟨hmoves.bytes.trans hbytes, by omega, .inr hsize⟩

theorem le_of_slices (h : ∀ earlier < count, ∃ slice, d.answer earlier = .ok (some slice)) :
    count ≤ (d.source.bytes.size - d.source.pos) / 16 := by
  obtain ⟨-, hpos, hsize⟩ := pos_after h
  omega

/-- Every slice moves the stream on by the widths of its runs, never past the end.  So there
are only so many slices, and behind the last of them one answer that is none, and nothing
from then on. -/
theorem decoding_ends (d : Decoder) :
    (∀ number, d.next.result = .ok (some number) →
      (∃ runs rest skipped, d.MovesOver number runs rest skipped) ∧
      d.source.pos + 16 ≤ d.next.decoder.source.pos ∧
      d.next.decoder.source.pos ≤ d.source.bytes.size) ∧
    ∃ count ≤ (d.source.bytes.size - d.source.pos) / 16,
      (∀ earlier < count, ∃ slice, d.answer earlier = .ok (some slice)) ∧
      (d.answer count = .ok none ∨ ∃ reason, d.answer count = .error reason) ∧
      ∀ later, count < later → d.answer later = .ok none := by
  constructor
  · intro number h
    obtain ⟨runs, rest, skipped, hmoves⟩ := exists_movesOver h
    exact ⟨⟨runs, rest, skipped, hmoves⟩, hmoves.bounds⟩
  · obtain ⟨count, hslices, hlast, hlater⟩ := d.exists_last
    refine ⟨count, le_of_slices hslices, hslices, ?_, hlater⟩
    rw [answer_eq]
    rcases hresult : (d.after count).next.result with reason | _ | number
    · exact .inr ⟨reason, rfl⟩
    · exact .inl rfl
    · exact absurd hresult (hlast number)

/-- Slices 5 and 6 and three bytes: the first step moves over the run of slice 5, and there
are no more than two slices to come. -/
theorem decoding_ends_of_two_slices :
    let bytes := [⟨5, [], [], []⟩, ⟨6, [], [], []⟩].flatMap Run.encode ++ [1, 2, 3]
    let d : Decoder := { setup := { channels := 1 }, stations := 2, source := .ofBytes bytes }
    d.next.result = .ok (some 5) ∧ (∃ runs rest skipped, d.MovesOver 5 runs rest skipped) ∧
      ∃ count ≤ 2, ∀ later, count < later → d.answer later = .ok none := by
  intro bytes d
  have hbytes : Transcript.ofBytes d.setup.channels d.source.ahead =
      ⟨[⟨5, [], [], []⟩, ⟨6, [], [], []⟩], .clean 3⟩ := by
    decide +kernel
  have hready := ready_ofBytes (show d.finished = false from rfl) (by decide) rfl rfl
  rw [hbytes] at hready
  have hresult : d.next.result = .ok (some 5) := result_of_answer (answer_of_ready hready 0)
  obtain ⟨hmoves, count, hcount, -, -, hlater⟩ := decoding_ends d
  exact ⟨hresult, (hmoves 5 hresult).1, count, Nat.le_trans hcount (by decide), hlater⟩

end Decoder
end Correlator
