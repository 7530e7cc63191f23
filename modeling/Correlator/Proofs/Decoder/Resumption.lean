import Correlator.Proofs.Decoder.Consumed
import Correlator.Proofs.Decoder.Course
import Correlator.Proofs.Decoder.Lockstep

/-!
# Going on with a new decoder

Between slices the stream is all that a decoder has to remember.  A new decoder on the
stream where another one has left it gives what the other one still has to give, also if
the other one has seen the end already: the new one then finds it once more.
-/

namespace Correlator
namespace Decoder

variable {d e : Decoder} {count : Nat}

/-- Decoders that differ at most in the number of slices that lie behind them. -/
structure Resembles (d e : Decoder) : Prop where
  setup : d.setup = e.setup
  stations : d.stations = e.stations
  source : d.source = e.source
  finished : d.finished = e.finished

theorem Resembles.next (h : d.Resembles e) :
    d.next.result = e.next.result ∧ d.next.events = e.next.events ∧
      d.next.decoder.Resembles e.next.decoder := by
  cases hd : d.finished with
  | true =>
    rw [next_of_finished hd, next_of_finished (h.finished.symm.trans hd)]
    exact ⟨rfl, rfl, h⟩
  | false =>
    rw [next_eq hd, next_eq (h.finished.symm.trans hd), h.setup, h.source]
    rcases e.setup.slice? { source := e.source } with ⟨_ | found, tape⟩ | ⟨reason, tape⟩ <;>
      exact ⟨rfl, rfl, h.setup, h.stations, rfl, rfl⟩

theorem Resembles.after (h : d.Resembles e) (count : Nat) :
    (d.after count).Resembles (e.after count) := by
  induction count with
  | zero => exact h
  | succ count ih =>
    rw [after_succ, after_succ]
    exact ih.next.2.2

theorem Resembles.answer (h : d.Resembles e) (earlier : Nat) :
    d.answer earlier = e.answer earlier := by
  obtain ⟨hresult, hevents, -⟩ := (h.after earlier).next
  rw [answer_eq, answer_eq, hresult, hevents, h.stations]

/-- Slices leave a stream without failures as it is, and if one of them was the last, then
nothing is ahead. -/
theorem source_after (hd : d.finished = false) (hread : d.source.readFault = none)
    (hseek : d.source.seekFault = none)
    (h : ∀ earlier < count, ∃ slice, d.answer earlier = .ok (some slice)) :
    (d.after count).source.readFault = none ∧ (d.after count).source.seekFault = none ∧
      ((d.after count).finished = true → (d.after count).source.ahead = []) := by
  induction count with
  | zero => exact ⟨hread, hseek, fun hended => by simp [after, hd] at hended⟩
  | succ count ih =>
    obtain ⟨hread', hseek', -⟩ := ih fun earlier hearlier => h earlier (by omega)
    obtain ⟨slice, hslice⟩ := h count (by omega)
    obtain ⟨hgoes, runs, rest, ended, hne, hruns, hcloses⟩ :=
      runs_of_next (result_of_answer hslice)
    obtain ⟨source, hreach, hnext⟩ := next_of_closes hgoes hread' hseek' hne hruns hcloses
    rw [after_succ, hnext]
    refine ⟨hreach.readFault.trans hread', hreach.seekFault.trans hseek', fun hended => ?_⟩
    rw [hreach.ahead, unread, if_pos hended]

/-- With nothing ahead there is nothing to decode, and the stream stays where it is. -/
theorem answer_of_nil (hd : d.finished = false) (hread : d.source.readFault = none)
    (h : d.source.ahead = []) (earlier : Nat) :
    d.answer earlier = .ok none ∧ (d.after earlier).source.pos = d.source.pos := by
  have hshort : d.source.ahead.length < Stored.width RunCounts := by
    rw [h]
    decide
  obtain ⟨source, hreach, hnext⟩ := next_of_end hd hshort hread
  have hpos : source.pos = d.source.pos := by simpa [h] using hreach.pos
  cases earlier with
  | zero => exact ⟨by rw [answer_zero, hnext]; rfl, rfl⟩
  | succ earlier =>
    show d.next.decoder.answer earlier = _ ∧ (d.next.decoder.after earlier).source.pos = _
    rw [hnext]
    exact ⟨answer_of_finished rfl earlier, by rw [after_of_finished rfl]; exact hpos⟩

/-- After any number of slices, a new decoder with the same header and the same settings
gives the rest of the answers and leaves the stream at the same places. -/
theorem answer_of_resumed (header : Header) (settings : Settings) (source : Source)
    (transform : Transform) (hread : source.readFault = none) (hseek : source.seekFault = none)
    (count : Nat) (hslices : ∀ earlier < count, ∃ slice,
      (start header settings source transform).answer earlier = .ok (some slice)) (later : Nat) :
    let d := start header settings source transform
    let fresh := start header settings (d.after count).source transform
    fresh.answer later = d.answer (count + later) ∧
      (fresh.after later).source.pos = (d.after (count + later)).source.pos := by
  intro d fresh
  rw [answer_add, after_add]
  obtain ⟨hread', -, hended⟩ := source_after rfl hread hseek hslices
  cases hfinished : (d.after count).finished with
  | false =>
    have hlike : fresh.Resembles (d.after count) :=
      ⟨(d.setup_after count).symm, (d.stations_after count).symm, rfl, hfinished.symm⟩
    exact ⟨hlike.answer later, by rw [(hlike.after later).source]⟩
  | true =>
    obtain ⟨hnone, hpos⟩ := answer_of_nil (d := fresh) rfl hread' (hended hfinished) later
    rw [hnone, hpos, answer_of_finished hfinished, after_of_finished hfinished]
    exact ⟨rfl, rfl⟩

/-- Slices 5 and 6 and three bytes.  A new decoder behind slice 5 finds slice 6, and one
behind slice 6 finds nothing, although the bytes left over have been read before. -/
theorem answer_of_resumed_twice :
    let header : Header :=
      ⟨64, "N24L1", 2024, 1, 0, 1, 1000000, 1, 1000, .parallel, .plain⟩
    let source : Source :=
      .ofBytes ([⟨5, [], [], []⟩, ⟨6, [], [], []⟩].flatMap Run.encode ++ [1, 2, 3])
    let d := start header {} source
    source.readFault = none ∧ source.seekFault = none ∧
      (∀ earlier < 2, ∃ slice, d.answer earlier = .ok (some slice)) ∧
      (start header {} (d.after 1).source).answer 0 = d.answer 1 ∧
      (start header {} (d.after 2).source).answer 0 = .ok none := by
  intro header source d
  have hbytes : Transcript.ofBytes d.setup.channels d.source.ahead =
      ⟨[⟨5, [], [], []⟩, ⟨6, [], [], []⟩], .clean 3⟩ := by
    decide +kernel
  have hready := ready_ofBytes (show d.finished = false from rfl) (by decide) rfl rfl
  rw [hbytes] at hready
  have hanswer := answer_of_ready hready
  have hslices : ∀ earlier < 2, ∃ slice, d.answer earlier = .ok (some slice) := by
    intro earlier hearlier
    rcases earlier with _ | _ | earlier
    · exact ⟨_, hanswer 0⟩
    · exact ⟨_, hanswer 1⟩
    · omega
  have hfirst := (answer_of_resumed header {} source .inverse rfl rfl 1
    (fun earlier hearlier => hslices earlier (by omega)) 0).1
  have hsecond := (answer_of_resumed header {} source .inverse rfl rfl 2 hslices 0).1
  exact ⟨rfl, rfl, hslices, hfirst, hsecond.trans (hanswer 2)⟩

end Decoder
end Correlator
