import Correlator.Proofs.Stream.Lockstep

/-!
# Streams that go on alike

Two streams that hold the same bytes from some place on, which need not be the same place in
both, and whose failures lie equally far behind it.  What stands before that place and how the
bytes are delivered is left open.  `kept_parallel` says that two readers of them stay side by
side.
-/

namespace Correlator
namespace Source

/-- How far behind a place reads fail, and why. -/
def failureBehind (s : Source) (place : Nat) : Option (Nat × String) :=
  s.readFault.map fun fault => (fault.position - place, fault.reason)

/-- Both streams have come equally far from where they began, `s` at `a` and `t` at `b`, and
from there on they hold the same bytes and fail at the same of them. -/
structure Parallel (a b : Nat) (s t : Source) : Prop where
  bytes : s.bytes.toList.drop a = t.bytes.toList.drop b
  pos : ∃ way, s.pos = a + way ∧ t.pos = b + way
  readFault : s.failureBehind a = t.failureBehind b
  seekFault : s.seekFault = t.seekFault

variable {a b : Nat} {s s' t t' : Source}

/-- Bytes that follow on different beginnings. -/
theorem parallel_ofBytes (before before' rest : List UInt8) :
    Parallel before.length before'.length
      { ofBytes (before ++ rest) with pos := before.length }
      { ofBytes (before' ++ rest) with pos := before'.length } where
  bytes := by
    show (before ++ rest).drop before.length = (before' ++ rest).drop before'.length
    rw [List.drop_left, List.drop_left]
  pos := ⟨0, rfl, rfl⟩
  readFault := rfl
  seekFault := rfl

/-- A stream that has come some way from a place, by what it holds from there on. -/
theorem ahead_eq_drop {way : Nat} (hpos : s.pos = a + way) :
    s.ahead = match s.failureBehind a with
      | none => (s.bytes.toList.drop a).drop way
      | some (distance, _) => ((s.bytes.toList.drop a).take distance).drop way := by
  unfold ahead failureBehind limit
  rw [hpos, ← List.drop_drop, List.drop_take]
  cases s.readFault with
  | none =>
    show List.drop way (List.take (s.bytes.size - a) _) = _
    rw [List.take_of_length_le (by simp)]
    rfl
  | some fault =>
    show List.drop way (List.take (min s.bytes.size fault.position - a) _) =
      List.drop way (List.take (fault.position - a) _)
    by_cases h : fault.position ≤ s.bytes.size
    · rw [Nat.min_eq_right h]
    · rw [List.take_of_length_le (by simp; omega), List.take_of_length_le (by simp; omega)]

theorem obstacleBehind_eq {way : Nat} (hpos : s.pos = a + way) :
    s.obstacleBehind? = match s.failureBehind a with
      | none => none
      | some (distance, reason) =>
        if distance ≤ way + s.ahead.length then some reason else none := by
  unfold obstacleBehind? obstacle? failureBehind
  cases s.readFault with
  | none => rfl
  | some fault =>
    show (if fault.position ≤ s.pos + s.ahead.length then _ else _) =
      if fault.position - a ≤ way + s.ahead.length then _ else _
    have hiff : fault.position ≤ a + way + s.ahead.length ↔
        fault.position - a ≤ way + s.ahead.length := by omega
    rw [hpos]
    simp only [hiff]

namespace Parallel

theorem ahead (h : s.Parallel a b t) : s.ahead = t.ahead := by
  obtain ⟨way, hs, ht⟩ := h.pos
  rw [ahead_eq_drop hs, ahead_eq_drop ht, h.readFault, h.bytes]

theorem supply (h : s.Parallel a b t) (wanted : Nat) : s.supply wanted = t.supply wanted := by
  obtain ⟨way, hs, ht⟩ := h.pos
  unfold Source.supply
  rw [obstacleBehind_eq hs, obstacleBehind_eq ht, h.readFault, h.ahead]

theorem of_reaches {rest rest' : List UInt8} (h : s.Parallel a b t) (hs : s.Reaches rest s')
    (ht : t.Reaches rest' t') (hpos : ∃ way, s'.pos = a + way ∧ t'.pos = b + way) :
    s'.Parallel a b t' where
  bytes := by rw [hs.bytes, ht.bytes, h.bytes]
  pos := hpos
  readFault := by
    have hfault := h.readFault
    unfold failureBehind at hfault ⊢
    rw [hs.readFault, ht.readFault, hfault]
  seekFault := by rw [hs.seekFault, ht.seekFault, h.seekFault]

end Parallel

theorem kept_parallel (a b : Nat) : Kept (Parallel a b) (.alike True) where
  upTo := by
    intro wanted s t h
    refine Reading.ends_upTo (h.supply wanted) (fun _ => trivial) fun s' t' hs ht => ?_
    obtain ⟨way, hspos, htpos⟩ := h.pos
    refine h.of_reaches hs ht ⟨way + min wanted s.ahead.length, ?_, ?_⟩
    · rw [pos_of_reaches_drop hs, hspos, Nat.add_assoc]
    · rw [pos_of_reaches_drop ht, htpos, h.ahead, Nat.add_assoc]
  back := by
    intro s s' t t' width hbefore h hwidth
    obtain ⟨way, hspos, -⟩ := hbefore.pos
    obtain ⟨way', hspos', htpos'⟩ := h.pos
    unfold Reading.seek seek
    rw [← h.seekFault]
    cases hfault : s'.seekFault with
    | some why => exact .error (fun _ => trivial) h
    | none =>
      apply Ends.ok trivial
      refine ⟨h.bytes, ⟨way' - width, ?_, ?_⟩, h.readFault, rfl⟩
      · show s'.pos - width = a + (way' - width)
        omega
      · show t'.pos - width = b + (way' - width)
        omega

end Source
end Correlator
