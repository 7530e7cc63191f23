import Correlator.Proofs.Decoder.Ready

/-!
# All answers of a decoder

A decoder can be asked for slices as often as one likes.  `answer_of_ready` says what it
answers each time: what the transcript of the bytes ahead says, slice by slice, then
the failure if there is one, and nothing from then on.
-/

namespace Correlator

namespace Decoder

def after : Nat → Decoder → Decoder
  | 0, d => d
  | count + 1, d => after count d.next.decoder

/-- What the decoder answers after a number of earlier calls. -/
def answer (d : Decoder) (earlier : Nat) : Except DecodeError (Option Slice) :=
  (d.after earlier).nextSlice.2

end Decoder

/-- The answer that one of the outcomes of a transcript stands for. -/
def Slice.answer (s : Setup) (stations : Nat) :
    Option (Except DecodeError (List Run)) → Except DecodeError (Option Slice)
  | some (.ok block) => .ok (some (.ofRuns s stations block))
  | some (.error reason) => .error reason
  | none => .ok none

namespace Decoder

variable {d : Decoder} {number : Int32} {block : List Run} {reason : DecodeError}

theorem answer_succ (d : Decoder) (earlier : Nat) :
    d.answer (earlier + 1) = d.next.decoder.answer earlier := rfl

/-- The next answer is what the next step finds, entered into a new tally. -/
theorem answer_zero (d : Decoder) :
    d.answer 0 = d.next.result.map
      (Option.map fun number => ⟨number, (Tally.empty d.stations).enterAll d.next.events⟩) := by
  show d.next.result.map (Option.map fun number => Slice.mk number
    (if d.finished then _ else (Tally.empty d.stations).clear.enterAll d.next.events)) = _
  cases hd : d.finished with
  | true => rw [next_of_finished hd]; rfl
  | false => rw [Tally.clear_empty]; rfl

theorem answer_zero_of_none (hresult : d.next.result = .ok none) : d.answer 0 = .ok none := by
  rw [answer_zero, hresult]
  rfl

theorem answer_of_finished (hd : d.finished = true) (earlier : Nat) :
    d.answer earlier = .ok none := by
  have hnext := next_of_finished hd
  induction earlier with
  | zero => exact answer_zero_of_none (by rw [hnext])
  | succ earlier ih => rw [answer_succ, hnext, ih]

theorem answer_of_fails (h : d.Fails reason) (earlier : Nat) :
    d.answer earlier = if earlier = 0 then .error reason else .ok none := by
  obtain ⟨source, events, hnext⟩ := h
  cases earlier with
  | zero =>
    rw [answer_zero, hnext]
    rfl
  | succ earlier =>
    rw [answer_succ, hnext, if_neg (by omega)]
    exact answer_of_finished rfl earlier

theorem answer_zero_of_slice (left : Nat) (hne : block ≠ [])
    (hblock : ∀ r ∈ block, r.slice = number) (hresult : d.next.result = .ok (some number))
    (hevents : d.next.events = d.setup.sliceEvents block ++ Setup.leftOver left) :
    d.answer 0 = .ok (some (.ofRuns d.setup d.stations block)) := by
  rw [answer_zero, hresult, hevents, Tally.enterAll_slice, ← blockNumber_eq hne hblock]
  rfl

/-- A decoder answers what the transcript of the bytes ahead comes to. -/
theorem answer_of_ready {runs : List Run} {ending : Ending} (h : d.Ready ⟨runs, ending⟩)
    (earlier : Nat) :
    d.answer earlier = Slice.answer d.setup d.stations
      (Transcript.outcomes ⟨runs, ending⟩)[earlier]? := by
  have hfails : ∀ {d : Decoder} {earlier : Nat} {reason : DecodeError}, d.Fails reason →
      d.answer earlier = Slice.answer d.setup d.stations
        ([.error reason] : List (Except DecodeError (List Run)))[earlier]? := by
    intro d earlier reason hfail
    rw [answer_of_fails hfail]
    cases earlier <;> rfl
  induction runs using blocks_induction generalizing d earlier with
  | nil =>
    cases ending with
    | clean left =>
      obtain ⟨source, hnext⟩ := h.next_of_nil
      cases earlier with
      | zero => exact answer_zero_of_none (by rw [hnext])
      | succ earlier =>
        rw [answer_succ, hnext]
        exact answer_of_finished rfl earlier
    | corrupt reason => exact hfails (h.fails_of_corrupt (by simp : ∀ r ∈ ([] : List Run), r.slice = 0))
    | broken slice reason => exact hfails (h.fails_of_broken (by simp))
  | @append slice block others hne hblock hothers ih =>
    -- Another slice follows: its header is handed back, and the decoder goes on from there.
    have hother : ∀ next, Transcript.slice? ⟨others, ending⟩ = some next → next ≠ slice →
        d.answer earlier = Slice.answer d.setup d.stations
          (Transcript.outcomes ⟨block ++ others, ending⟩)[earlier]? := by
      intro next hnext hslice
      obtain ⟨source, hstep, hready⟩ := h.next_of_other hne hblock hnext hslice
      rw [Transcript.outcomes_append hne hblock hnext hslice]
      cases earlier with
      | zero =>
        exact answer_zero_of_slice 0 hne hblock (by rw [hstep])
          (by rw [hstep]; simp [Setup.leftOver])
      | succ earlier =>
        rw [answer_succ, hstep, List.getElem?_cons_succ]
        exact ih hready earlier
    cases others with
    | cons other others => exact hother other.slice rfl (hothers other (by simp))
    | nil =>
      rw [List.append_nil] at h ⊢
      cases ending with
      | clean left =>
        obtain ⟨source, hstep⟩ := h.next_of_last hne hblock
        rw [Transcript.outcomes_of_clean hne hblock]
        cases earlier with
        | zero =>
          exact answer_zero_of_slice left hne hblock (by rw [hstep]) (by rw [hstep])
        | succ earlier =>
          rw [answer_succ, hstep]
          exact answer_of_finished rfl earlier
      | corrupt reason =>
        rw [Transcript.outcomes_of_corrupt hne hblock]
        exact hfails (h.fails_of_corrupt hblock)
      | broken next reason =>
        by_cases hsame : next = slice
        · subst hsame
          rw [Transcript.outcomes_of_broken hne hblock]
          exact hfails (h.fails_of_broken hblock)
        · have hanswer := hother next rfl hsame
          rwa [List.append_nil] at hanswer

/-- Runs that end cleanly decode without an error. -/
theorem answer_ne_error_of_clean {runs : List Run} {left : Nat} (h : d.Ready ⟨runs, .clean left⟩)
    (earlier : Nat) (reason : DecodeError) : d.answer earlier ≠ .error reason := by
  rw [answer_of_ready h]
  show Slice.answer _ _ ((blocks runs).map Except.ok)[earlier]? ≠ _
  rw [List.getElem?_map]
  cases (blocks runs)[earlier]? <;> simp [Slice.answer]

/-- Decoding slice by slice with one header of look-ahead comes to the same as reading
all runs first and putting them together afterwards. -/
theorem answer_eq_outcomes (d : Decoder) (hd : d.finished = false)
    (hchannels : 0 < d.setup.channels) (hread : d.source.readFault = none)
    (hseek : d.source.seekFault = none) (earlier : Nat) :
    d.answer earlier = Slice.answer d.setup d.stations
      (Transcript.ofBytes d.setup.channels d.source.remaining).outcomes[earlier]? := by
  have hready : d.Ready (Transcript.ofBytes d.setup.channels d.source.ahead) :=
    ⟨hd, hchannels, hread, hseek, Transcript.reads_ofBytes d.setup.channels d.source.ahead⟩
  rw [← Source.ahead_eq_remaining hread]
  exact answer_of_ready hready earlier

/-- Two runs of slice 5, one of slice 6, and another of slice 6 of which three bytes are
left: slice 5 is found, slice 6 is lost, and its failure is the last that is said. -/
theorem answer_of_cut_continuation :
    let bytes := [⟨5, [], [], []⟩, ⟨5, [], [], []⟩, ⟨6, [], [], []⟩].flatMap Run.encode
      ++ Stored.encode (⟨6, 0, 1, 0⟩ : RunCounts) ++ [1, 2, 3]
    let d : Decoder := { setup := { channels := 1 }, stations := 2, source := .ofBytes bytes }
    d.finished = false ∧ 0 < d.setup.channels ∧ d.source.readFault = none ∧
      d.source.seekFault = none ∧
      d.answer 0 = .ok (some (.ofRuns d.setup 2 [⟨5, [], [], []⟩, ⟨5, [], [], []⟩])) ∧
      d.answer 1 = .error (.endOfStream .uvw 32 3) ∧ d.answer 2 = .ok none := by
  intro bytes d
  have hbytes : Transcript.ofBytes 1 bytes = ⟨[⟨5, [], [], []⟩, ⟨5, [], [], []⟩, ⟨6, [], [], []⟩],
      .broken 6 (.endOfStream .uvw 32 3)⟩ := by
    decide +kernel
  have hanswer (earlier : Nat) : d.answer earlier = Slice.answer d.setup 2
      (Transcript.ofBytes 1 bytes).outcomes[earlier]? :=
    answer_eq_outcomes d rfl (by decide) rfl rfl earlier
  rw [hbytes] at hanswer
  exact ⟨rfl, by decide, rfl, rfl, hanswer 0, hanswer 1, hanswer 2⟩

end Decoder
end Correlator
