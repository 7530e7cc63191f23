import Correlator.Calendar.TimeLabel
import Mathlib.Data.List.Forall2

/-!
# Numbers in columns

Numbers that are written with the same number of digits are in the order of their texts
(`columns_append_lt`).  Without zeros in front they are not: `"10"` comes before `"9"`.
-/

namespace Correlator
namespace TimeLabel

/-- The last `width` digits of a number. -/
def columns : Nat → Nat → List Char
  | 0, _ => []
  | width + 1, n => columns width (n / 10) ++ [(n % 10).digitChar]

variable {width n m : Nat}

@[simp] theorem length_columns (width n : Nat) : (columns width n).length = width := by
  induction width generalizing n with
  | zero => rfl
  | succ width ih => rw [columns, List.length_append, ih, List.length_singleton]

theorem columns_zero (width : Nat) : columns width 0 = List.replicate width '0' := by
  induction width with
  | zero => rfl
  | succ width ih =>
    rw [columns, Nat.zero_div, ih, List.replicate_succ']
    rfl

theorem isDigit_of_mem_columns {c : Char} (h : c ∈ columns width n) : c.isDigit = true := by
  induction width generalizing n with
  | zero => exact absurd h List.not_mem_nil
  | succ width ih =>
    rcases List.mem_append.mp h with hfront | hlast
    · exact ih hfront
    · rw [List.mem_singleton.mp hlast, Nat.isDigit_digitChar]
      exact decide_eq_true (Nat.mod_lt n (by decide))

/-- The digits of a number, with zeros in front as far as there is room. -/
theorem columns_succ_eq (h : n < 10 ^ (width + 1)) :
    columns (width + 1) n
      = List.replicate (width + 1 - (Nat.toDigits 10 n).length) '0' ++ Nat.toDigits 10 n := by
  induction width generalizing n with
  | zero =>
    rw [Nat.toDigits_of_lt_base h]
    show [] ++ [(n % 10).digitChar] = _
    rw [Nat.mod_eq_of_lt h]
    rfl
  | succ width ih =>
    rw [columns, Nat.toDigits_eq_if (by decide)]
    by_cases hlt : n < 10
    · rw [if_pos hlt, Nat.div_eq_of_lt hlt, Nat.mod_eq_of_lt hlt, columns_zero]
      rfl
    · have hfront : n / 10 < 10 ^ (width + 1) := by
        rw [Nat.div_lt_iff_lt_mul (by decide)]
        exact h
      rw [if_neg hlt, ih hfront, List.length_append, List.length_singleton,
        Nat.add_sub_add_right, List.append_assoc]

theorem toList_digits (hwidth : 0 < width) (h : n < 10 ^ width) :
    (digits width n).toList = columns width n := by
  obtain ⟨width, rfl⟩ := Nat.exists_eq_add_one_of_ne_zero (Nat.ne_of_gt hwidth)
  rw [columns_succ_eq h, digits, String.toList_ofList]

/-- A number that fills its columns is written without zeros in front. -/
theorem toList_toString (hfull : 10 ^ width ≤ n) (h : n < 10 ^ (width + 1)) :
    (toString n).toList = columns (width + 1) n := by
  have hlength : width + 1 ≤ (Nat.toDigits 10 n).length := by
    rcases Nat.eq_zero_or_pos width with rfl | hpos
    · exact Nat.length_toDigits_pos
    · refine Nat.not_le.mp fun hle => ?_
      exact Nat.not_lt.mpr hfull ((Nat.length_toDigits_le_iff (by decide) hpos).mp hle)
  rw [columns_succ_eq h, Nat.sub_eq_zero_of_le hlength]
  exact Nat.toList_repr

theorem digitChar_lt (h : n < m) (hm : m < 10) : n.digitChar < m.digitChar := by
  rw [Char.lt_def, UInt32.lt_iff_toNat_lt]
  show n.digitChar.toNat < m.digitChar.toNat
  rw [Nat.toNat_digitChar_of_lt_ten (Nat.lt_trans h hm), Nat.toNat_digitChar_of_lt_ten hm]
  omega

/-- Of two texts of one length what follows does not change the order. -/
theorem append_lt_append {as bs : List Char} (hlength : as.length = bs.length) (h : as < bs)
    (cs ds : List Char) : as ++ cs < bs ++ ds := by
  induction as generalizing bs with
  | nil =>
    rw [List.length_eq_zero_iff.mp hlength.symm] at h
    exact absurd h (List.lt_irrefl [])
  | cons a as ih =>
    cases bs with
    | nil => exact absurd h (List.not_lt_nil _)
    | cons b bs =>
      rw [List.cons_append, List.cons_append, List.cons_lt_cons_iff]
      rcases List.cons_lt_cons_iff.mp h with hhead | ⟨rfl, htail⟩
      · exact .inl hhead
      · exact .inr ⟨rfl, ih (Nat.succ_inj.mp hlength) htail⟩

theorem columns_lt (h : n < m) (hm : m < 10 ^ width) : columns width n < columns width m := by
  induction width generalizing n m with
  | zero => omega
  | succ width ih =>
    rw [columns, columns]
    rcases Nat.lt_or_ge (n / 10) (m / 10) with hfront | hfront
    · refine append_lt_append (by simp) (ih hfront ?_) _ _
      rw [Nat.div_lt_iff_lt_mul (by decide)]
      exact hm
    · have hsame : n / 10 = m / 10 := by omega
      rw [hsame]
      apply List.append_left_lt
      rw [List.cons_lt_cons_iff]
      exact .inl (digitChar_lt (by omega) (Nat.mod_lt m (by decide)))

theorem columns_append_lt (h : n < m) (hm : m < 10 ^ width) (cs ds : List Char) :
    columns width n ++ cs < columns width m ++ ds :=
  append_lt_append (by simp) (columns_lt h hm) cs ds

/-- Of two numbers in columns that are equal what follows decides. -/
theorem columns_lt_or_eq {c : Char} {cs ds : List Char} (hm : m < 10 ^ width)
    (h : n < m ∨ n = m ∧ cs < ds) : columns width n ++ c :: cs < columns width m ++ c :: ds := by
  rcases h with hless | ⟨rfl, htail⟩
  · exact columns_append_lt hless hm _ _
  · exact List.append_left_lt (List.cons_lt_cons_iff.mpr (.inr ⟨rfl, htail⟩))

/-- A text fits a shape if it has a digit for each capital letter and all else in common. -/
def Fits (shape text : List Char) : Prop :=
  List.Forall₂ (fun place c => if place.isUpper then c.isDigit = true else c = place) shape text

theorem fits_columns {place : Char} (hplace : place.isUpper = true) (width n : Nat) :
    Fits (List.replicate width place) (columns width n) := by
  refine List.forall₂_iff_get.mpr ⟨by simp, fun i hi hi' => ?_⟩
  rw [List.get_eq_getElem, List.getElem_replicate, if_pos hplace]
  exact isDigit_of_mem_columns (List.get_mem _ _)

theorem Fits.append_cons {c : Char} {shape shape' text text' : List Char}
    (h : Fits shape text) (hc : c.isUpper = false) (h' : Fits shape' text') :
    Fits (shape ++ c :: shape') (text ++ c :: text') := by
  refine List.rel_append h (.cons ?_ h')
  rw [hc, if_neg Bool.false_ne_true]

end TimeLabel
end Correlator
