import Correlator.Tally.Basic

/-!
# What is filed is found

Filing appends to one list and leaves all others as they are.  For groups this rests on
their order, which filing keeps.
-/

namespace Correlator

namespace Slots

variable {α : Type}

theorem under_empty (count index : Nat) : under (empty α count) index = [] := by
  unfold under empty
  rw [List.getElem?_replicate]
  split <;> rfl

theorem under_file (slots : Slots α) (index other : Nat) (a : α) :
    (slots.file index a).under other
      = if other = index then slots.under other ++ [a] else slots.under other := by
  unfold under
  fun_induction file slots index a generalizing other with
  | case1 a => cases other <;> simp
  | case2 a index ih =>
    cases other with
    | zero => simp
    | succ other => simpa using ih other
  | case3 slot slots a => cases other <;> simp
  | case4 slot slots index a ih =>
    cases other with
    | zero => simp
    | succ other => simpa using ih other

/-- The row reaches the index, and is no longer than it has to be. -/
theorem length_file (slots : Slots α) (index : Nat) (a : α) :
    (slots.file index a).length = max slots.length (index + 1) := by
  fun_induction file slots index a with
  | case1 a => rfl
  | case2 a index ih => simp only [List.length_cons, List.length_nil] at ih ⊢; omega
  | case3 slot slots a => simp only [List.length_cons]; omega
  | case4 slot slots index a ih => simp only [List.length_cons] at ih ⊢; omega

end Slots

namespace StationPair

theorem lt_irrefl (a : StationPair) : ¬ a < a := Nat.lt_irrefl a.rank

theorem lt_trans {a b c : StationPair} (h : a < b) (h' : b < c) : a < c := Nat.lt_trans h h'

theorem lt_of_ne_of_not_lt {a b : StationPair} (hne : a ≠ b) (h : ¬ a < b) : b < a :=
  Nat.lt_of_le_of_ne (Nat.le_of_not_lt h) fun heq => hne (rank_inj heq).symm

end StationPair

namespace Groups

variable {α : Type} {groups : Groups StationPair α} {key other : StationPair}

/-- The keys ascend, so that each is there once, and each has a value. -/
structure Ordered (groups : Groups StationPair α) : Prop where
  ascending : groups.Pairwise fun a b => a.1 < b.1
  filled : ∀ group ∈ groups, group.2 ≠ []

theorem under_cons (k : StationPair) (values : List α) (groups : Groups StationPair α)
    (key : StationPair) :
    under ((k, values) :: groups) key = if key = k then values else under groups key := by
  unfold under
  by_cases h : key = k
  · rw [if_pos h, List.lookup_cons, beq_iff_eq.mpr h]
    rfl
  · rw [if_neg h, List.lookup_cons, beq_false_of_ne h]

theorem under_of_lt (h : ∀ group ∈ groups, key < group.1) : groups.under key = [] := by
  induction groups with
  | nil => rfl
  | cons group groups ih =>
    obtain ⟨k, values⟩ := group
    have hk : key < k := h (k, values) List.mem_cons_self
    have hne : key ≠ k := by
      rintro rfl
      exact StationPair.lt_irrefl key hk
    rw [under_cons, if_neg hne]
    exact ih fun g hg => h g (List.mem_cons_of_mem _ hg)

theorem under_file (hgroups : groups.Ordered) (key other : StationPair) (a : α) :
    (groups.file key a).under other
      = if other = key then groups.under other ++ [a] else groups.under other := by
  induction groups with
  | nil => rw [file, under_cons]; rfl
  | cons group groups ih =>
    obtain ⟨k, values⟩ := group
    obtain ⟨hhead, htail⟩ := List.pairwise_cons.mp hgroups.ascending
    have hrest := ih ⟨htail, fun g hg => hgroups.filled g (List.mem_cons_of_mem _ hg)⟩
    rw [file]
    by_cases heq : key = k
    · subst heq
      rw [if_pos rfl, under_cons, under_cons]
      by_cases h : other = key <;> simp [h]
    · rw [if_neg heq]
      by_cases hlt : key < k
      · -- the key is new, and the groups behind it have later ones
        have hnone : under ((k, values) :: groups) key = [] :=
          under_of_lt fun g hg => (List.mem_cons.mp hg).elim (fun h => h ▸ hlt)
            fun h => StationPair.lt_trans hlt (hhead g h)
        rw [if_pos hlt, under_cons]
        by_cases h : other = key
        · rw [if_pos h, if_pos h, h, hnone, List.nil_append]
        · rw [if_neg h, if_neg h]
      · rw [if_neg hlt, under_cons, under_cons, hrest]
        by_cases h : other = k
        · rw [if_pos h, if_pos h, if_neg fun h' => heq (h'.symm.trans h)]
        · rw [if_neg h, if_neg h]

theorem mem_keys_file (groups : Groups StationPair α) (key other : StationPair) (a : α) :
    other ∈ (groups.file key a).map Prod.fst ↔ other = key ∨ other ∈ groups.map Prod.fst := by
  induction groups with
  | nil => simp [file]
  | cons group groups ih =>
    obtain ⟨k, values⟩ := group
    rw [file]
    by_cases heq : key = k
    · simp [heq]
    · by_cases hlt : key < k
      · simp [heq, hlt]
      · rw [if_neg heq, if_neg hlt, List.map_cons, List.mem_cons, ih, List.map_cons, List.mem_cons]
        exact or_left_comm

theorem ordered_file (hgroups : groups.Ordered) (key : StationPair) (a : α) :
    (groups.file key a).Ordered := by
  induction groups with
  | nil => exact ⟨List.pairwise_singleton _ _, by simp [file]⟩
  | cons group groups ih =>
    obtain ⟨k, values⟩ := group
    obtain ⟨hhead, htail⟩ := List.pairwise_cons.mp hgroups.ascending
    obtain ⟨hascending, hfilled⟩ := ih ⟨htail, fun g hg =>
      hgroups.filled g (List.mem_cons_of_mem _ hg)⟩
    have hvalues : values ≠ [] := hgroups.filled (k, values) List.mem_cons_self
    rw [file]
    by_cases heq : key = k
    · rw [if_pos heq]
      refine ⟨List.pairwise_cons.mpr ⟨hhead, htail⟩, ?_⟩
      intro g hg
      rcases List.mem_cons.mp hg with rfl | hg
      · simp
      · exact hgroups.filled g (List.mem_cons_of_mem _ hg)
    rw [if_neg heq]
    by_cases hlt : key < k
    · rw [if_pos hlt]
      refine ⟨List.pairwise_cons.mpr ⟨?_, hgroups.ascending⟩, ?_⟩
      · intro g hg
        rcases List.mem_cons.mp hg with rfl | hg
        · exact hlt
        · exact StationPair.lt_trans hlt (hhead g hg)
      · intro g hg
        rcases List.mem_cons.mp hg with rfl | hg
        · simp
        · exact hgroups.filled g hg
    · rw [if_neg hlt]
      refine ⟨List.pairwise_cons.mpr ⟨?_, hascending⟩, ?_⟩
      · intro g hg
        have hmem := (mem_keys_file groups key g.1 a).mp (List.mem_map_of_mem hg)
        rcases hmem with hkey | hmem
        · rw [hkey]
          exact StationPair.lt_of_ne_of_not_lt heq hlt
        · obtain ⟨g', hg', hsame⟩ := List.mem_map.mp hmem
          rw [← hsame]
          exact hhead g' hg'
      · intro g hg
        rcases List.mem_cons.mp hg with rfl | hg
        · exact hvalues
        · exact hfilled g hg

/-- In order, the keys are those under which something is found. -/
theorem mem_keys_iff (hgroups : groups.Ordered) :
    key ∈ groups.map Prod.fst ↔ groups.under key ≠ [] := by
  induction groups with
  | nil => simp [under]
  | cons group groups ih =>
    obtain ⟨k, values⟩ := group
    obtain ⟨-, htail⟩ := List.pairwise_cons.mp hgroups.ascending
    have hvalues : values ≠ [] := hgroups.filled (k, values) List.mem_cons_self
    have hrest := ih ⟨htail, fun g hg => hgroups.filled g (List.mem_cons_of_mem _ hg)⟩
    rw [List.map_cons, List.mem_cons, under_cons, hrest]
    by_cases h : key = k <;> simp [h, hvalues]

end Groups
end Correlator
