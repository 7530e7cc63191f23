import Correlator.Proofs.Header.Agreement

/-!
# Behind the header

A header that was read from the start leaves its stream behind the declared length.  A stream
that is opened anew and moved there delivers what the first one still has to deliver.
-/

namespace Correlator

namespace Reading

variable {α : Type} {s s' : Source}

theorem ofExcept_eq_ok {outcome : Except DecodeError α} {a : α} :
    ofExcept outcome s = .ok a s' ↔ outcome = .ok a ∧ s = s' := by
  cases outcome <;> simp [ofExcept]

theorem upTo_eq_ok {wanted : Nat} {bytes : List UInt8} (h : upTo wanted s = .ok bytes s') :
    bytes = s.ahead.take wanted ∧ s.Reaches (s.ahead.drop wanted) s' := by
  obtain ⟨s₁, hfill, hreach⟩ := s.fill_eq wanted
  unfold upTo at h
  rw [hfill] at h
  cases hsupply : s.supply wanted with
  | error why =>
    rw [hsupply] at h
    cases h
  | ok given =>
    rw [hsupply] at h
    obtain ⟨rfl, rfl⟩ : given = bytes ∧ s₁ = s' := by
      rwa [EStateM.Result.ok.injEq] at h
    refine ⟨?_, hreach⟩
    unfold Source.supply at hsupply
    split at hsupply
    · exact (Except.ok.inj hsupply).symm
    · rename_i hshort
      cases hbehind : s.obstacleBehind? with
      | some why =>
        rw [hbehind] at hsupply
        cases hsupply
      | none =>
        rw [hbehind] at hsupply
        rw [← Except.ok.inj hsupply, List.take_of_length_le (by omega)]

theorem seek_eq_ok {pos : Nat} (h : seek pos s = .ok () s') :
    s.seekFault = none ∧ s' = { s with pos } := by
  unfold seek Source.seek at h
  cases hfault : s.seekFault with
  | some why =>
    rw [hfault] at h
    cases h
  | none =>
    simp only [hfault, EStateM.Result.ok.injEq, true_and] at h
    rw [← h]
    exact ⟨rfl, rfl⟩

end Reading

namespace Header

variable {s s' : Source} {header : Header}

theorem readWhole_eq_ok {size : Nat} (h : readWhole size s = .ok header s') :
    s.seekFault = none ∧ size ≤ (Source.ahead { s with pos := 0 }).length ∧
      ofBytes ((Source.ahead { s with pos := 0 }).take size) = .ok header ∧
      Source.Reaches { s with pos := 0 } ((Source.ahead { s with pos := 0 }).drop size) s' := by
  obtain ⟨⟨⟩, s₁, hseek, h⟩ := bind_eq_ok.mp h
  obtain ⟨hfault, rfl⟩ := Reading.seek_eq_ok hseek
  obtain ⟨bytes, s₂, hupTo, h⟩ := bind_eq_ok.mp h
  obtain ⟨rfl, hreach⟩ := Reading.upTo_eq_ok hupTo
  split at h
  · cases h
  · rename_i hlength
    obtain ⟨hheader, rfl⟩ := Reading.ofExcept_eq_ok.mp h
    rw [List.length_take] at hlength
    exact ⟨hfault, by omega, hheader, hreach⟩

/-- Where a header leaves a stream that stood at its start: behind as many bytes as the header
declares, and able to go back. -/
theorem behind_of_read (h : read s = .ok header s') (hpos : s.pos = 0) :
    s'.pos = header.size ∧ s.seekFault = none ∧ s'.bytes = s.bytes ∧
      s'.readFault = s.readFault ∧ s'.seekFault = s.seekFault := by
  obtain ⟨start, s₁, hstart, hrest⟩ := bind_eq_ok.mp h
  obtain ⟨rfl, hreach₁⟩ := Reading.upTo_eq_ok hstart
  split at hrest
  · cases hrest
  rename_i hlength
  obtain ⟨size, s₂, hcheck, hwhole⟩ := bind_eq_ok.mp hrest
  obtain ⟨hsize, rfl⟩ := Reading.ofExcept_eq_ok.mp hcheck
  rw [List.length_take] at hlength
  have hback := hreach₁.back
  rw [hpos] at hback
  obtain ⟨hfault, hwhole, hheader, hreach₂⟩ := readWhole_eq_ok hwhole
  rw [hback.ahead] at hwhole hheader hreach₂
  have hreach := hback.trans hreach₂
  -- The length that the first bytes declare is that of the whole, which begins with them.
  rw [field_take (Nat.le_refl _) (by omega)] at hsize
  have hdeclared : header.size = size := by
    rw [(size_eq_extent hheader).1]
    refine extent_of_checkSize ?_
    rwa [field_take (sizeWidth_le_of_checkSize hsize) hwhole]
  have hend := hreach.pos
  rw [List.length_drop, hpos] at hend
  exact ⟨by omega, hreach₁.seekFault.symm.trans hfault, hreach.bytes, hreach.readFault,
    hreach.seekFault⟩

/-- The same stream, opened anew and moved to behind the header. -/
theorem reopened_matches (h : read s = .ok header s') (hpos : s.pos = 0) :
    s.seek header.size = (.ok (), { s with pos := header.size }) ∧
      Source.Matches (.alike True) { s with pos := header.size } s' := by
  obtain ⟨hend, hfault, hbytes, hread, hseek⟩ := behind_of_read h hpos
  refine ⟨?_, hbytes.symm, hend.symm, .inl hread, .inl hseek, fun _ => trivial⟩
  unfold Source.seek
  rw [hfault]

end Header

end Correlator
