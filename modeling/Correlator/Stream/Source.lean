/-!
# Streams

A `Source` is a stream over fixed bytes.  It may hand its bytes over in pieces of any
size, answer a read with an interruption, and fail for good from some position on.
`fill` hides the pieces and the interruptions: it gives all the bytes asked for
unless the stream ends or fails.
-/

namespace Correlator

/-- How a stream answers reads, call by call.  The number of interruptions before
each delivery is finite and no delivery is empty, which is what makes `fill` end. -/
structure Delivery where
  interruptions : Nat → Nat
  portion : Nat → Nat → Nat
  portion_pos : ∀ call wanted, 0 < wanted → 0 < portion call wanted

/-- All that is asked for, at once. -/
def Delivery.whole : Delivery where
  interruptions _ := 0
  portion _ wanted := wanted
  portion_pos _ _ h := h

/-- Reads fail with `reason` from `position` on. -/
structure ReadFault where
  position : Nat
  reason : String

/-- A stream: its bytes, where it stands, and how it behaves. -/
structure Source where
  bytes : Array UInt8
  pos : Nat := 0
  delivery : Delivery := .whole
  /-- How many deliveries there have been. -/
  calls : Nat := 0
  /-- How many interruptions there have been since the last of them. -/
  interrupted : Nat := 0
  readFault : Option ReadFault := none
  /-- Why seeks fail, if they do. -/
  seekFault : Option String := none

/-- What one read gives. -/
inductive Delivered
  | bytes (bytes : List UInt8)
  | interrupted
  | failed (reason : String)

namespace Source

def ofBytes (bytes : List UInt8) : Source := { bytes := bytes.toArray }

/-- The bytes from the current position to the end. -/
def remaining (s : Source) : List UInt8 := s.bytes.toList.drop s.pos

/-- Where reads stop: at the end, or where they start to fail. -/
def limit (s : Source) : Nat :=
  match s.readFault with
  | none => s.bytes.size
  | some fault => min s.bytes.size fault.position

/-- Why a read at the current position fails, if it does. -/
def obstacle? (s : Source) : Option String :=
  match s.readFault with
  | none => none
  | some fault => if fault.position ≤ s.pos then some fault.reason else none

/-- Interruptions still to come before the next delivery. -/
def interruptionsLeft (s : Source) : Nat :=
  s.delivery.interruptions s.calls - s.interrupted

/-- One read of at most `wanted` bytes. -/
def read (s : Source) (wanted : Nat) : Delivered × Source :=
  if s.interrupted < s.delivery.interruptions s.calls then
    (.interrupted, { s with interrupted := s.interrupted + 1 })
  else
    let next := { s with calls := s.calls + 1, interrupted := 0 }
    match s.obstacle? with
    | some reason => (.failed reason, next)
    | none =>
      let size := min wanted (s.delivery.portion s.calls wanted)
      let given := s.bytes.extract s.pos (min (s.pos + size) s.limit)
      (.bytes given.toList, { next with pos := s.pos + given.size })

theorem interruptionsLeft_of_read_interrupted {s s' : Source} {wanted : Nat}
    (h : s.read wanted = (.interrupted, s')) :
    s'.interruptionsLeft < s.interruptionsLeft := by
  unfold read at h
  split at h
  · simp only [Prod.mk.injEq, true_and] at h
    subst h
    simp only [interruptionsLeft]
    omega
  · split at h <;> simp at h

/-- Read until `wanted` bytes are there or the stream ends, retrying after
interruptions.  On failure the bytes already read are lost. -/
def fill (s : Source) (wanted : Nat) : Except String (List UInt8) × Source :=
  if wanted = 0 then (.ok [], s)
  else
    match _h : s.read wanted with
    | (.failed reason, s') => (.error reason, s')
    | (.interrupted, s') => s'.fill wanted
    | (.bytes [], s') => (.ok [], s')
    | (.bytes (b :: given), s') =>
      match s'.fill (wanted - (given.length + 1)) with
      | (.ok rest, s'') => (.ok (b :: given ++ rest), s'')
      | (.error reason, s'') => (.error reason, s'')
termination_by (wanted, s.interruptionsLeft)
decreasing_by
  · exact Prod.Lex.right _ (interruptionsLeft_of_read_interrupted _h)
  · exact Prod.Lex.left _ _ (by omega)

/- A read moves the position by what it gives, and never past the end. -/

theorem limit_le_size (s : Source) : s.limit ≤ s.bytes.size := by
  unfold limit
  split
  · exact Nat.le_refl _
  · exact Nat.min_le_left _ _

theorem bytes_read (s : Source) (wanted : Nat) : (s.read wanted).2.bytes = s.bytes := by
  unfold read
  split
  · rfl
  · dsimp only
    split <;> rfl

theorem pos_le_pos_read (s : Source) (wanted : Nat) : s.pos ≤ (s.read wanted).2.pos := by
  unfold read
  split
  · exact Nat.le_refl _
  · dsimp only
    split
    · exact Nat.le_refl _
    · exact Nat.le_add_right _ _

theorem pos_of_read_bytes {s s' : Source} {wanted : Nat} {given : List UInt8}
    (h : s.read wanted = (.bytes given, s')) :
    s'.pos = s.pos + given.length ∧ (given = [] ∨ s'.pos ≤ s.bytes.size) := by
  unfold read at h
  split at h
  · simp at h
  · dsimp only at h
    split at h
    · simp at h
    · have hlimit := s.limit_le_size
      simp only [Prod.mk.injEq, Delivered.bytes.injEq] at h
      obtain ⟨rfl, rfl⟩ := h
      refine ⟨by simp; omega, ?_⟩
      rw [← List.length_eq_zero_iff]
      simp only [Array.length_toList, Array.size_extract]
      omega

theorem bytes_fill (s : Source) (wanted : Nat) : (s.fill wanted).2.bytes = s.bytes := by
  fun_induction fill s wanted with
  | case1 s => rfl
  | case2 s wanted _ reason s' h => simpa [h] using s.bytes_read wanted
  | case3 s wanted _ s' h ih => rw [ih]; simpa [h] using s.bytes_read wanted
  | case4 s wanted _ s' h => simpa [h] using s.bytes_read wanted
  | case5 s wanted _ b given s' h rest s'' hrest ih =>
    rw [hrest] at ih
    rw [ih]
    simpa [h] using s.bytes_read wanted
  | case6 s wanted _ b given s' h reason s'' hrest ih =>
    rw [hrest] at ih
    rw [ih]
    simpa [h] using s.bytes_read wanted

theorem pos_le_pos_fill (s : Source) (wanted : Nat) : s.pos ≤ (s.fill wanted).2.pos := by
  fun_induction fill s wanted with
  | case1 s => exact Nat.le_refl _
  | case2 s wanted _ reason s' h => simpa [h] using s.pos_le_pos_read wanted
  | case3 s wanted _ s' h ih =>
    refine Nat.le_trans ?_ ih
    simpa [h] using s.pos_le_pos_read wanted
  | case4 s wanted _ s' h => simpa [h] using s.pos_le_pos_read wanted
  | case5 s wanted _ b given s' h rest s'' hrest ih =>
    rw [hrest] at ih
    refine Nat.le_trans ?_ ih
    simpa [h] using s.pos_le_pos_read wanted
  | case6 s wanted _ b given s' h reason s'' hrest ih =>
    rw [hrest] at ih
    refine Nat.le_trans ?_ ih
    simpa [h] using s.pos_le_pos_read wanted

theorem pos_of_fill_ok {s s' : Source} {wanted : Nat} {given : List UInt8}
    (h : s.fill wanted = (.ok given, s')) :
    s'.pos = s.pos + given.length ∧ (given = [] ∨ s'.pos ≤ s.bytes.size) := by
  fun_induction fill s wanted generalizing s' given with
  | case1 s => simp_all
  | case2 s wanted _ reason s' h => simp_all
  | case3 s wanted _ s₁ hread ih =>
    have hbytes : s₁.bytes = s.bytes := by simpa [hread] using s.bytes_read wanted
    have hpos : s₁.pos = s.pos := by
      unfold read at hread
      split at hread
      · simp only [Prod.mk.injEq, true_and] at hread
        rw [← hread]
      · dsimp only at hread
        split at hread <;> simp at hread
    have := ih h
    rwa [hbytes, hpos] at this
  | case4 s wanted _ s₁ hread =>
    simp only [Prod.mk.injEq, Except.ok.injEq] at h
    obtain ⟨rfl, rfl⟩ := h
    exact pos_of_read_bytes hread
  | case5 s wanted _ b first s₁ hread rest s₂ hrest ih =>
    simp only [Prod.mk.injEq, Except.ok.injEq] at h
    obtain ⟨rfl, rfl⟩ := h
    have hbytes : s₁.bytes = s.bytes := by simpa [hread] using s.bytes_read wanted
    have h₁ := pos_of_read_bytes hread
    have h₂ := ih hrest
    rw [hbytes] at h₂
    simp only [List.length_cons, List.length_append, List.cons_append, reduceCtorEq, false_or,
      ← List.length_eq_zero_iff] at h₁ h₂ ⊢
    omega
  | case6 s wanted _ b first s₁ hread reason s₂ hrest ih => simp_all

/-- `s'` holds the bytes of `s` and stands there or further on. -/
structure Onward (s s' : Source) : Prop where
  bytes : s'.bytes = s.bytes
  pos : s.pos ≤ s'.pos

theorem Onward.refl (s : Source) : s.Onward s := ⟨rfl, Nat.le_refl _⟩

theorem Onward.trans {s s' s'' : Source} (h : s.Onward s') (h' : s'.Onward s'') : s.Onward s'' :=
  ⟨h'.bytes.trans h.bytes, Nat.le_trans h.pos h'.pos⟩

theorem onward_fill (s : Source) (wanted : Nat) : s.Onward (s.fill wanted).2 :=
  ⟨s.bytes_fill wanted, s.pos_le_pos_fill wanted⟩

/-- Move to a position, which may lie past the end. -/
def seek (s : Source) (pos : Nat) : Except String Unit × Source :=
  match s.seekFault with
  | some reason => (.error reason, s)
  | none => (.ok (), { s with pos := pos })

end Source
end Correlator
