import Correlator.Proofs.Stream.Fill

/-!
# Two runs, side by side

Two steps, or twice the same step, run from states of which something can be said.  `Ends`
says how: both runs end alike, in states of which the same can be said again, or the first
alone ends, with a failure of its stream that the second does not have.

What a step may do on its own account is left to the step; the rules below go through it
part by part.  For streams they ask no more than `Source.Kept`, and `Source.Matches` is a
relation that meets it: the same bytes, the same place, and failures on the first side only.
-/

namespace Correlator

/-- What may become of the first of two runs. -/
structure Allowance where
  /-- Why its stream may fail where that of the second goes on. -/
  failure : String → Prop
  /-- Whether its stream may run out of bytes. -/
  shortage : Prop

/-- Streams that fail alike, so that the first never fails alone. -/
def Allowance.alike (shortage : Prop) : Allowance := ⟨fun _ => False, shortage⟩

section Rules

variable {σ α β : Type} {rel rel' : σ → σ → Prop} {may : Allowance} {post : α → Prop}
  {post' : β → Prop} {step step' : EStateM DecodeError σ α}
  {next next' : α → EStateM DecodeError σ β}

/-- How two runs end.  A value that both give has the property `post`. -/
inductive Ends (rel : σ → σ → Prop) (may : Allowance) (post : α → Prop) :
    EStateM.Result DecodeError σ α → EStateM.Result DecodeError σ α → Prop
  | ok {a : α} {s t : σ} : post a → rel s t → Ends rel may post (.ok a s) (.ok a t)
  | error {reason : DecodeError} {s t : σ} :
    (reason.isEndOfStream = true → may.shortage) → rel s t →
      Ends rel may post (.error reason s) (.error reason t)
  | failed {why : String} {s t : σ} {result : EStateM.Result DecodeError σ α} :
    may.failure why → rel s t → Ends rel may post (.error (.stream why) s) result

/-- From related states, two runs of a step end as `Ends` says. -/
def Lockstep (rel : σ → σ → Prop) (may : Allowance) (post : α → Prop)
    (step : EStateM DecodeError σ α) : Prop :=
  ∀ s t, rel s t → Ends rel may post (step s) (step t)

/-- The same of two steps. -/
def Beside (rel : σ → σ → Prop) (may : Allowance) (post : α → Prop)
    (step step' : EStateM DecodeError σ α) : Prop :=
  ∀ s t, rel s t → Ends rel may post (step s) (step' t)

theorem Ends.bind {s t : σ} (hstep : Ends rel may post (step s) (step' t))
    (hnext : ∀ a s' t', step s = .ok a s' → post a → rel s' t' →
      Ends rel may post' (next a s') (next' a t')) :
    Ends rel may post' ((step >>= next) s) ((step' >>= next') t) := by
  show Ends rel may post' (EStateM.bind step next s) (EStateM.bind step' next' t)
  unfold EStateM.bind
  generalize hs : step s = first at hstep
  generalize step' t = second at hstep
  cases hstep with
  | ok hpost hrel => exact hnext _ _ _ hs hpost hrel
  | error hshortage hrel => exact .error hshortage hrel
  | failed hwhy hrel => exact .failed hwhy hrel

theorem Ends.weaken {post'' : α → Prop} {first second : EStateM.Result DecodeError σ α}
    (h : Ends rel may post first second) (hrel : ∀ s t, rel s t → rel' s t)
    (hpost : ∀ a, post a → post'' a) : Ends rel' may post'' first second := by
  cases h with
  | ok h hst => exact .ok (hpost _ h) (hrel _ _ hst)
  | error hshortage hst => exact .error hshortage (hrel _ _ hst)
  | failed hwhy hst => exact .failed hwhy (hrel _ _ hst)

theorem beside_bind (hstep : Beside rel may post step step')
    (hnext : ∀ a, post a → Beside rel may post' (next a) (next' a)) :
    Beside rel may post' (step >>= next) (step' >>= next') :=
  fun s t hrel => (hstep s t hrel).bind fun a s' t' _ hpost hrel' => hnext a hpost s' t' hrel'

theorem lockstep_pure {a : α} (h : post a) : Lockstep rel may post (pure a) :=
  fun _ _ hrel => .ok h hrel

theorem lockstep_throw {reason : DecodeError}
    (h : reason.isEndOfStream = true → may.shortage) : Lockstep rel may post (throw reason) :=
  fun _ _ hrel => .error h hrel

theorem lockstep_bind (hstep : Lockstep rel may post step)
    (hnext : ∀ a, post a → Lockstep rel may post' (next a)) :
    Lockstep rel may post' (step >>= next) :=
  beside_bind hstep hnext

theorem lockstep_weaken {post'' : α → Prop} (hstep : Lockstep rel may post step)
    (hpost : ∀ a, post a → post'' a) : Lockstep rel may post'' step :=
  fun s t hrel => (hstep s t hrel).weaken (fun _ _ h => h) hpost

theorem lockstep_map (f : α → β) (hstep : Lockstep rel may post step)
    (hf : ∀ a, post a → post' (f a)) : Lockstep rel may post' (f <$> step) := by
  rw [map_eq_pure_bind]
  exact lockstep_bind hstep fun a hpost => lockstep_pure (hf a hpost)

end Rules

namespace Source

/-- Reads come to the end of the bytes before they fail, if they fail at all. -/
def RunsOut (s : Source) : Prop := ∀ fault, s.readFault = some fault → s.bytes.size < fault.position

theorem exists_fault_of_obstacleBehind {s : Source} {why : String}
    (h : s.obstacleBehind? = some why) :
    ∃ fault, s.readFault = some fault ∧ fault.reason = why := by
  unfold obstacleBehind? obstacle? at h
  cases hfault : s.readFault with
  | none => simp [hfault] at h
  | some fault =>
    simp only [hfault, Option.ite_none_right_eq_some, Option.some.injEq] at h
    exact ⟨fault, rfl, h.2⟩

theorem runsOut_of_obstacleBehind {s : Source} (h : s.obstacleBehind? = none) : s.RunsOut := by
  intro fault hfault
  have hlength := s.length_ahead
  simp only [obstacleBehind?, obstacle?, hfault, ite_eq_right_iff, reduceCtorEq, imp_false] at h
  simp only [limit, hfault] at hlength
  omega

theorem Reaches.runsOut {s s' : Source} {rest : List UInt8} (h : s.Reaches rest s') :
    s'.RunsOut ↔ s.RunsOut := by
  unfold RunsOut
  rw [h.bytes, h.readFault]

theorem RunsOut.limit {s : Source} (h : s.RunsOut) : s.limit = s.bytes.size := by
  unfold Source.limit
  cases hfault : s.readFault with
  | none => rfl
  | some fault =>
    have hpos := h fault hfault
    exact Nat.min_eq_left (by omega)

/-- `s` holds the bytes of `t` and stands at the same place.  What fails on `t` fails on `s`
too, and `may` allows for whatever else fails on `s`. -/
structure Matches (may : Allowance) (s t : Source) : Prop where
  bytes : s.bytes = t.bytes
  pos : s.pos = t.pos
  readFault : t.readFault = s.readFault ∨
    t.readFault = none ∧ ∀ fault, s.readFault = some fault → may.failure fault.reason
  seekFault : t.seekFault = s.seekFault ∨
    t.seekFault = none ∧ ∀ why, s.seekFault = some why → may.failure why
  shortage : s.RunsOut → may.shortage

variable {may : Allowance} {s s' t t' : Source}

theorem Matches.of_same (h : s.Matches may t) (hs : s'.bytes = s.bytes)
    (hsread : s'.readFault = s.readFault) (hsseek : s'.seekFault = s.seekFault)
    (ht : t'.bytes = t.bytes) (htread : t'.readFault = t.readFault)
    (htseek : t'.seekFault = t.seekFault) (hpos : s'.pos = t'.pos) : s'.Matches may t' where
  bytes := by rw [hs, ht, h.bytes]
  pos := hpos
  readFault := by rw [hsread, htread]; exact h.readFault
  seekFault := by rw [hsseek, htseek]; exact h.seekFault
  shortage := by
    intro hout
    refine h.shortage fun fault hfault => ?_
    rw [← hs]
    exact hout fault (hsread.trans hfault)

/-- Unless it fails alone, a stream supplies what its partner does, and moves as far. -/
theorem Matches.supply (h : s.Matches may t) (wanted : Nat) :
    (s.supply wanted = t.supply wanted ∧
      min wanted s.ahead.length = min wanted t.ahead.length) ∨
    ∃ why, may.failure why ∧ s.supply wanted = .error why := by
  have hsame : s.limit = t.limit → s.ahead = t.ahead := by
    intro hlimit
    rw [ahead, ahead, hlimit, h.bytes, h.pos]
  rcases h.readFault with hfault | ⟨hnone, hmay⟩
  · have hahead : s.ahead = t.ahead := hsame (by unfold limit; rw [h.bytes, hfault])
    have hbehind : s.obstacleBehind? = t.obstacleBehind? := by
      simp only [obstacleBehind?, obstacle?, hahead, h.pos, hfault]
    exact .inl ⟨by rw [Source.supply, Source.supply, hahead, hbehind], by rw [hahead]⟩
  · have hlimit : t.limit = s.bytes.size := by simp only [limit, hnone, h.bytes]
    have hle : s.ahead.length ≤ t.ahead.length := by
      have hsize := s.limit_le_size
      rw [length_ahead, length_ahead, hlimit, h.pos]
      omega
    by_cases hwanted : wanted ≤ s.ahead.length
    -- What `t` has ahead begins with what `s` has ahead.
    · have htake : s.ahead.take wanted = t.ahead.take wanted := by
        have hsize := s.limit_le_size
        rw [length_ahead] at hwanted
        rw [ahead, ahead, List.drop_take, List.drop_take, List.take_take, List.take_take,
          h.bytes, h.pos, hlimit]
        congr 1
        have := h.pos
        omega
      refine .inl ⟨?_, by omega⟩
      rw [Source.supply, Source.supply, if_pos hwanted, if_pos (by omega), htake]
    · cases hbehind : s.obstacleBehind? with
      | some why =>
        obtain ⟨fault, hfault, rfl⟩ := exists_fault_of_obstacleBehind hbehind
        exact .inr ⟨fault.reason, hmay fault hfault,
          by rw [Source.supply, if_neg hwanted, hbehind]⟩
      | none =>
        have hahead : s.ahead = t.ahead :=
          hsame ((runsOut_of_obstacleBehind hbehind).limit.trans hlimit.symm)
        have hclear : t.obstacleBehind? = none := by
          simp only [obstacleBehind?, obstacle?, hnone]
        exact .inl ⟨by rw [Source.supply, Source.supply, hahead, hbehind, hclear], by rw [hahead]⟩

theorem runsOut_of_supply {bytes : List UInt8} {wanted : Nat} (h : s.supply wanted = .ok bytes)
    (hlength : bytes.length < wanted) : s.RunsOut := by
  unfold Source.supply at h
  split at h
  · simp only [Except.ok.injEq] at h
    subst h
    rw [List.length_take] at hlength
    omega
  · cases hbehind : s.obstacleBehind? with
    | some why => simp [hbehind] at h
    | none => exact runsOut_of_obstacleBehind hbehind

end Source

/-- If it is a failure, it does not say that bytes are missing. -/
def Complete {α : Type} (outcome : Except DecodeError α) : Prop :=
  ∀ reason, outcome = .error reason → reason.isEndOfStream = false

theorem complete_ok {α : Type} (a : α) : Complete (.ok a) := by
  intro reason h
  simp at h

theorem complete_error {α : Type} {reason : DecodeError} (h : reason.isEndOfStream = false) :
    Complete (.error reason : Except DecodeError α) := by
  intro reason' heq
  rw [← Except.error.inj heq]
  exact h

namespace Source

/-- Related streams stay related when as many bytes are read from both, and when both go back
over some bytes by which they have moved on. -/
structure Kept (rel : Source → Source → Prop) (may : Allowance) : Prop where
  upTo : ∀ wanted, Lockstep rel may (fun bytes => bytes.length < wanted → may.shortage)
    (Reading.upTo wanted)
  back : ∀ {s s' t t' : Source} {width : Nat}, rel s t → rel s' t' → s.pos + width ≤ s'.pos →
    Ends rel may (fun _ => True) (Reading.seek (s'.pos - width) s')
      (Reading.seek (t'.pos - width) t')

theorem pos_of_reaches_drop {s s' : Source} {count : Nat} (h : s.Reaches (s.ahead.drop count) s') :
    s'.pos = s.pos + min count s.ahead.length := by
  have hpos := h.pos
  rw [List.length_drop] at hpos
  omega

end Source

namespace Reading

variable {rel : Source → Source → Prop} {may : Allowance}

/-- Streams that supply the same, and that come to related places in doing so. -/
theorem ends_upTo {s t : Source} {wanted : Nat} (hsupply : s.supply wanted = t.supply wanted)
    (hshortage : s.RunsOut → may.shortage)
    (hmoved : ∀ s' t', s.Reaches (s.ahead.drop wanted) s' → t.Reaches (t.ahead.drop wanted) t' →
      rel s' t') :
    Ends rel may (fun bytes => bytes.length < wanted → may.shortage) (upTo wanted s)
      (upTo wanted t) := by
  obtain ⟨s', hs, hsreach⟩ := s.fill_eq wanted
  obtain ⟨t', ht, htreach⟩ := t.fill_eq wanted
  unfold upTo
  rw [hs, ht, ← hsupply]
  cases hvalue : s.supply wanted with
  | error why => exact .error (by simp [DecodeError.isEndOfStream]) (hmoved _ _ hsreach htreach)
  | ok bytes =>
    exact .ok (fun hlength => hshortage (Source.runsOut_of_supply hvalue hlength))
      (hmoved _ _ hsreach htreach)

theorem lockstep_upTo (wanted : Nat) :
    Lockstep (Source.Matches may) may (fun bytes => bytes.length < wanted → may.shortage)
      (upTo wanted) := by
  intro s t h
  rcases h.supply wanted with ⟨hsupply, hmoved⟩ | ⟨why, hwhy, hfails⟩
  · refine ends_upTo hsupply h.shortage fun s' t' hs ht => ?_
    refine h.of_same hs.bytes hs.readFault hs.seekFault ht.bytes ht.readFault ht.seekFault ?_
    rw [Source.pos_of_reaches_drop hs, Source.pos_of_reaches_drop ht, hmoved, h.pos]
  · obtain ⟨s', hs, hreach⟩ := s.fill_eq wanted
    have hmatch : s'.Matches may { t with pos := s'.pos } :=
      h.of_same hreach.bytes hreach.readFault hreach.seekFault rfl rfl rfl rfl
    unfold upTo
    rw [hs, hfails]
    exact .failed hwhy hmatch

theorem lockstep_seek (pos : Nat) :
    Lockstep (Source.Matches may) may (fun _ => True) (seek pos) := by
  intro s t h
  unfold seek Source.seek
  rcases h.seekFault with hsame | ⟨hnone, hmay⟩
  · rw [hsame]
    cases hfault : s.seekFault with
    | none =>
      exact .ok trivial (h.of_same rfl rfl hfault.symm rfl rfl (hsame.trans hfault).symm rfl)
    | some why => exact .error (by simp [DecodeError.isEndOfStream]) h
  · cases hfault : s.seekFault with
    | none =>
      rw [hnone]
      exact .ok trivial (h.of_same rfl rfl hfault.symm rfl rfl hnone.symm rfl)
    | some why => exact .failed (hmay why hfault) h

theorem kept_matches (may : Allowance) : Source.Kept (Source.Matches may) may where
  upTo := lockstep_upTo
  back := by
    intro s s' t t' width _ h _
    rw [← h.pos]
    exact lockstep_seek (s'.pos - width) s' t' h

theorem lockstep_exactly (hrel : Source.Kept rel may) (piece : Piece) (width : Nat) :
    Lockstep rel may (fun _ => True) (exactly piece width) := by
  refine lockstep_bind (hrel.upTo width) fun bytes hbytes => ?_
  split
  · rename_i hlength
    exact lockstep_throw fun _ => hbytes hlength
  · exact lockstep_pure trivial

theorem lockstep_ofExcept {α : Type} {outcome : Except DecodeError α} (h : Complete outcome) :
    Lockstep rel may (fun a => outcome = .ok a) (ofExcept outcome) := by
  intro s t hst
  cases outcome with
  | ok a => exact .ok rfl hst
  | error reason => exact .error (fun hend => by simp [h reason rfl] at hend) hst

/-- A stream that fails before it runs out gives all the bytes that are asked for, or fails. -/
theorem upTo_of_fault {s : Source} (hfault : ¬ s.RunsOut) (wanted : Nat) :
    (∃ why s', upTo wanted s = .error (.stream why) s') ∨
      wanted ≤ s.ahead.length ∧ ∃ s', upTo wanted s = .ok (s.ahead.take wanted) s' ∧
        s.Reaches (s.ahead.drop wanted) s' := by
  by_cases h : wanted ≤ s.ahead.length
  · obtain ⟨s', hfill, hreach⟩ := s.fill_of_le wanted h
    exact .inr ⟨h, s', by rw [upTo, hfill], hreach⟩
  · cases hbehind : s.obstacleBehind? with
    | none => exact absurd (Source.runsOut_of_obstacleBehind hbehind) hfault
    | some why =>
      obtain ⟨s', hfill, -⟩ := s.fill_eq wanted
      rw [Source.supply, if_neg h, hbehind] at hfill
      exact .inl ⟨why, s', by rw [upTo, hfill]⟩

/-- What a step gives, wherever it leaves the stream. -/
def outcome {α : Type} (step : Reading α) (s : Source) : Except DecodeError α :=
  match step s with
  | .ok a _ => .ok a
  | .error reason _ => .error reason

theorem outcome_of_lockstep {α : Type} {post : α → Prop} {step : Reading α} {s t : Source}
    (hstep : Lockstep (Source.Matches may) may post step) (h : s.Matches may t) :
    outcome step s = outcome step t ∨
      ∃ why, may.failure why ∧ outcome step s = .error (.stream why) := by
  have hends := hstep s t h
  unfold outcome
  generalize step s = first at hends ⊢
  generalize step t = second at hends ⊢
  cases hends with
  | ok _ _ => exact .inl rfl
  | error _ _ => exact .inl rfl
  | failed hwhy _ => exact .inr ⟨_, hwhy, rfl⟩

end Reading
end Correlator
