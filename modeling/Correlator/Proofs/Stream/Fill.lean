import Correlator.Stream.Reading

/-!
# What a stream delivers

`Source.ahead` is what reads can still deliver, and `Source.supply` is what comes of asking
for some of it.  `fill_eq` says that `fill` gives just that, whatever pieces the bytes come
in and however often a read is interrupted, and `Reaches` says where the stream stands
afterwards.
-/

namespace Correlator
namespace Source

/-- The bytes that reads can still deliver: those from the current position to the end,
or to where reads start to fail. -/
def ahead (s : Source) : List UInt8 := (s.bytes.toList.take s.limit).drop s.pos

/-- `s'` is the stream `s` further on, with `rest` ahead of it.  How many deliveries and
interruptions there were on the way is left open. -/
structure Reaches (s : Source) (rest : List UInt8) (s' : Source) : Prop where
  bytes : s'.bytes = s.bytes
  readFault : s'.readFault = s.readFault
  seekFault : s'.seekFault = s.seekFault
  ahead : s'.ahead = rest
  pos : s'.pos + rest.length = s.pos + s.ahead.length

namespace Reaches

variable {s s' s'' : Source} {rest rest' : List UInt8}

theorem refl (s : Source) : s.Reaches s.ahead s := ⟨rfl, rfl, rfl, rfl, rfl⟩

theorem trans (h : s.Reaches rest s') (h' : s'.Reaches rest' s'') : s.Reaches rest' s'' where
  bytes := h'.bytes.trans h.bytes
  readFault := h'.readFault.trans h.readFault
  seekFault := h'.seekFault.trans h.seekFault
  ahead := h'.ahead
  pos := by rw [h'.pos, h.ahead, h.pos]

theorem limit (h : s.Reaches rest s') : s'.limit = s.limit := by
  unfold Source.limit
  rw [h.bytes, h.readFault]

theorem back (h : s.Reaches rest s') : s.Reaches s.ahead { s' with pos := s.pos } where
  bytes := h.bytes
  readFault := h.readFault
  seekFault := h.seekFault
  ahead := by
    show (s'.bytes.toList.take s'.limit).drop s.pos = _
    rw [h.bytes, h.limit, Source.ahead]
  pos := rfl

end Reaches

theorem ahead_eq_remaining {s : Source} (h : s.readFault = none) : s.ahead = s.remaining := by
  have hlimit : s.limit = s.bytes.toList.length := by
    simp only [limit, h, Array.length_toList]
  rw [ahead, hlimit, List.take_length, remaining]

/-- A stream at its start that holds `bytes` and does not fail, however it delivers them. -/
structure Serves (s : Source) (bytes : List UInt8) : Prop where
  bytes : s.bytes.toList = bytes
  pos : s.pos = 0
  readFault : s.readFault = none
  seekFault : s.seekFault = none

theorem serves_ofBytes (bytes : List UInt8) : (ofBytes bytes).Serves bytes := ⟨rfl, rfl, rfl, rfl⟩

theorem Serves.ahead {s : Source} {bytes : List UInt8} (h : s.Serves bytes) : s.ahead = bytes := by
  rw [ahead_eq_remaining h.readFault, remaining, h.pos, List.drop_zero, h.bytes]

theorem length_ahead (s : Source) : s.ahead.length = s.limit - s.pos := by
  have hlimit := s.limit_le_size
  simp only [ahead, List.length_drop, List.length_take, Array.length_toList]
  omega

theorem reaches_of_pos {s s' : Source} (count : Nat) (hbytes : s'.bytes = s.bytes)
    (hread : s'.readFault = s.readFault) (hseek : s'.seekFault = s.seekFault)
    (hpos : s'.pos = s.pos + min count s.ahead.length) :
    s.Reaches (s.ahead.drop count) s' := by
  have hlimit : s'.limit = s.limit := by
    unfold limit
    rw [hbytes, hread]
  have hahead : s'.ahead = s.ahead.drop (min count s.ahead.length) := by
    simp only [ahead, hbytes, hlimit, hpos, List.drop_drop]
  refine ⟨hbytes, hread, hseek, ?_, ?_⟩
  · rw [hahead]
    by_cases h : count ≤ s.ahead.length
    · rw [Nat.min_eq_left h]
    · rw [Nat.min_eq_right (by omega), List.drop_length, List.drop_of_length_le (by omega)]
  · rw [hpos, List.length_drop]
    omega

theorem limit_le_of_obstacle {s : Source} {reason : String} (h : s.obstacle? = some reason) :
    s.limit ≤ s.pos := by
  unfold obstacle? at h
  unfold limit
  cases hfault : s.readFault with
  | none => simp [hfault] at h
  | some fault =>
    simp only [hfault] at h ⊢
    split at h
    · omega
    · simp at h

theorem reaches_of_read_interrupted {s s' : Source} {wanted : Nat}
    (h : s.read wanted = (.interrupted, s')) : s.Reaches s.ahead s' := by
  unfold read at h
  split at h
  · simp only [Prod.mk.injEq, true_and] at h
    subst h
    exact reaches_of_pos 0 rfl rfl rfl (by simp)
  · split at h <;> simp at h

theorem ahead_of_read_failed {s s' : Source} {wanted : Nat} {reason : String}
    (h : s.read wanted = (.failed reason, s')) :
    s.obstacle? = some reason ∧ s.ahead = [] ∧ s.Reaches [] s' := by
  unfold read at h
  split at h
  · simp at h
  · dsimp only at h
    split at h
    · rename_i hobstacle
      simp only [Prod.mk.injEq, Delivered.failed.injEq] at h
      obtain ⟨rfl, rfl⟩ := h
      have hnil : s.ahead = [] := by
        have hlength := s.length_ahead
        have hlimit := limit_le_of_obstacle hobstacle
        exact List.eq_nil_of_length_eq_zero (by omega)
      have hreach : s.Reaches (s.ahead.drop 0) { s with calls := s.calls + 1, interrupted := 0 } :=
        reaches_of_pos 0 rfl rfl rfl (by simp)
      rw [hnil, List.drop_nil] at hreach
      exact ⟨hobstacle, hnil, hreach⟩
    · simp at h

/-- What a read gives comes from what is ahead, and it is nothing only if nothing is. -/
theorem reaches_of_read_bytes {s s' : Source} {wanted : Nat} {given : List UInt8}
    (hwanted : 0 < wanted) (h : s.read wanted = (.bytes given, s')) :
    given = s.ahead.take given.length ∧ given.length ≤ min wanted s.ahead.length ∧
      (given = [] → s.ahead = []) ∧ s.Reaches (s.ahead.drop given.length) s' := by
  unfold read at h
  split at h
  · simp at h
  · dsimp only at h
    split at h
    · simp at h
    · simp only [Prod.mk.injEq, Delivered.bytes.injEq] at h
      obtain ⟨hbytes, hsource⟩ := h
      have hportion := s.delivery.portion_pos s.calls wanted hwanted
      have hlimit := s.limit_le_size
      have hlength := s.length_ahead
      have hgiven : given = s.ahead.take (min wanted (s.delivery.portion s.calls wanted)) := by
        rw [← hbytes, Array.toList_extract, List.extract_eq_take_drop, ahead, List.drop_take,
          List.take_take]
        congr 1
        omega
      have hsize := congrArg List.length hgiven
      rw [List.length_take] at hsize
      refine ⟨?_, by omega, fun hnil => ?_, ?_⟩
      · rw [hsize, ← List.take_eq_take_min, hgiven]
      · rw [hnil, List.length_nil] at hsize
        exact List.eq_nil_of_length_eq_zero (by omega)
      · refine reaches_of_pos _ ?_ ?_ ?_ ?_ <;> rw [← hsource]
        simp only [Array.size_extract]
        omega

theorem obstacle_of_read_bytes {s s' : Source} {wanted : Nat} {given : List UInt8}
    (h : s.read wanted = (.bytes given, s')) : s.obstacle? = none := by
  unfold read at h
  split at h
  · simp at h
  · dsimp only at h
    split at h
    · simp at h
    · assumption

/- Reading to the end of what is ahead, and one byte further. -/

/-- Why the read fails that comes after all the bytes ahead, if it does. -/
def obstacleBehind? (s : Source) : Option String :=
  obstacle? { s with pos := s.pos + s.ahead.length }

/-- What asking for some bytes comes to: these bytes, or all there are ahead, or why the
read behind them fails. -/
def supply (s : Source) (wanted : Nat) : Except String (List UInt8) :=
  if wanted ≤ s.ahead.length then .ok (s.ahead.take wanted)
  else
    match s.obstacleBehind? with
    | some reason => .error reason
    | none => .ok s.ahead

theorem Reaches.obstacleBehind {s s' : Source} {rest : List UInt8} (h : s.Reaches rest s') :
    s'.obstacleBehind? = s.obstacleBehind? := by
  have hpos : s'.pos + s'.ahead.length = s.pos + s.ahead.length := by rw [h.ahead, h.pos]
  unfold obstacleBehind?
  rw [hpos]
  simp only [obstacle?, h.readFault]

theorem obstacleBehind_of_nil {s : Source} (h : s.ahead = []) :
    s.obstacleBehind? = s.obstacle? := by
  unfold obstacleBehind?
  rw [h]
  rfl

/- Asking for bytes in two parts comes to the same as asking for them at once. -/

theorem Reaches.trans_drop {s s' s'' : Source} {size wanted : Nat}
    (h : s.Reaches (s.ahead.drop size) s')
    (h' : s'.Reaches (s'.ahead.drop (wanted - size)) s'') (hwanted : size ≤ wanted) :
    s.Reaches (s.ahead.drop wanted) s'' := by
  have hlast := h.trans h'
  rwa [h.ahead, List.drop_drop, Nat.add_sub_cancel' hwanted] at hlast

theorem supply_of_reaches {s s' : Source} {size wanted : Nat}
    (h : s.Reaches (s.ahead.drop size) s') (hsize : size ≤ min wanted s.ahead.length) :
    s.supply wanted = (s'.supply (wanted - size)).map (s.ahead.take size ++ ·) := by
  have hsplit : size + (wanted - size) = wanted := by omega
  unfold supply
  rw [h.obstacleBehind, h.ahead, List.length_drop]
  by_cases hle : wanted ≤ s.ahead.length
  · rw [if_pos hle, if_pos (by omega)]
    show _ = Except.ok (s.ahead.take size ++ (s.ahead.drop size).take (wanted - size))
    rw [← List.take_add, hsplit]
  · rw [if_neg hle, if_neg (by omega)]
    cases s.obstacleBehind? with
    | some reason => rfl
    | none =>
      show _ = Except.ok (s.ahead.take size ++ s.ahead.drop size)
      rw [List.take_append_drop]

/-- A first piece has come, and what is missing is asked for behind it. -/
theorem supply_of_read_bytes {s s₁ s₂ : Source} {wanted : Nat} {given : List UInt8}
    {rest : Except String (List UInt8)} (hwanted : 0 < wanted)
    (hread : s.read wanted = (.bytes given, s₁))
    (hrest : s₁.fill (wanted - given.length) = (rest, s₂))
    (ih : ∃ s', s₁.fill (wanted - given.length) = (s₁.supply (wanted - given.length), s') ∧
      s₁.Reaches (s₁.ahead.drop (wanted - given.length)) s') :
    s.supply wanted = rest.map (given ++ ·) ∧ s.Reaches (s.ahead.drop wanted) s₂ := by
  obtain ⟨hgiven, hsize, -, hreach⟩ := reaches_of_read_bytes hwanted hread
  obtain ⟨s₃, hfill, hlast⟩ := ih
  rw [hrest, Prod.mk.injEq] at hfill
  obtain ⟨rfl, rfl⟩ := hfill
  refine ⟨?_, hreach.trans_drop hlast (by omega)⟩
  rw [supply_of_reaches hreach hsize, ← hgiven]

/-- `fill` gives what the bytes ahead come to, however they are delivered. -/
theorem fill_eq (s : Source) (wanted : Nat) :
    ∃ s', s.fill wanted = (s.supply wanted, s') ∧ s.Reaches (s.ahead.drop wanted) s' := by
  fun_induction fill s wanted with
  | case1 s => exact ⟨s, by simp [supply], Reaches.refl s⟩
  | case2 s wanted hwanted reason s' hread =>
    obtain ⟨hobstacle, hnil, hreach⟩ := ahead_of_read_failed hread
    refine ⟨s', ?_, by rwa [hnil, List.drop_nil]⟩
    rw [supply, obstacleBehind_of_nil hnil, hobstacle, hnil, if_neg (by simpa using hwanted)]
  | case3 s wanted hwanted s₁ hread ih =>
    have hreach := reaches_of_read_interrupted hread
    obtain ⟨s₂, hfill, hrest⟩ := ih
    rw [hreach.ahead] at hrest
    refine ⟨s₂, ?_, hreach.trans hrest⟩
    rw [hfill]
    unfold supply
    rw [hreach.ahead, hreach.obstacleBehind]
  | case4 s wanted hwanted s₁ hread =>
    obtain ⟨-, -, hend, hreach⟩ := reaches_of_read_bytes (by omega) hread
    have hnil := hend rfl
    rw [hnil, List.drop_nil] at hreach
    refine ⟨s₁, ?_, by rwa [hnil, List.drop_nil]⟩
    rw [supply, obstacleBehind_of_nil hnil, obstacle_of_read_bytes hread, hnil,
      if_neg (by simpa using hwanted)]
  | case5 s wanted hwanted b given s₁ hread rest s₂ hrest ih =>
    obtain ⟨hsupply, hreach⟩ := supply_of_read_bytes (by omega) hread hrest ih
    exact ⟨s₂, by rw [hsupply]; rfl, hreach⟩
  | case6 s wanted hwanted b given s₁ hread reason s₂ hrest ih =>
    obtain ⟨hsupply, hreach⟩ := supply_of_read_bytes (by omega) hread hrest ih
    exact ⟨s₂, by rw [hsupply]; rfl, hreach⟩

theorem fill_of_le (s : Source) (wanted : Nat) (h : wanted ≤ s.ahead.length) :
    ∃ s', s.fill wanted = (.ok (s.ahead.take wanted), s') ∧
      s.Reaches (s.ahead.drop wanted) s' := by
  have hsupply : s.supply wanted = .ok (s.ahead.take wanted) := if_pos h
  rw [← hsupply]
  exact s.fill_eq wanted

theorem fill_of_lt (s : Source) (wanted : Nat) (h : s.ahead.length < wanted)
    (hfault : s.readFault = none) :
    ∃ s', s.fill wanted = (.ok s.ahead, s') ∧ s.Reaches [] s' := by
  have hobstacle : s.obstacleBehind? = none := by simp only [obstacleBehind?, obstacle?, hfault]
  have hsupply : s.supply wanted = .ok s.ahead := by
    rw [supply, if_neg (by omega), hobstacle]
  rw [← hsupply, ← List.drop_of_length_le (Nat.le_of_lt h)]
  exact s.fill_eq wanted

end Source
end Correlator
