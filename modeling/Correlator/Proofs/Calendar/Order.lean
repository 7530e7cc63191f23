import Correlator.Proofs.Calendar.Digits
import Correlator.Proofs.Calendar.Labels
import Mathlib.Data.Prod.Lex

/-!
# Labels in the order of time

Of two instants the later one has the later label, part by part and, where they differ by whole
seconds, as a text (`StartTime.sliceLabels_sort`).  The seconds are doubles: neighbouring
microseconds stay apart because no step of the arithmetic is off by as much as a quarter of one.
-/

namespace Correlator
namespace TimeLabel

variable {l l' : TimeLabel}

/-- The parts of a label, the year first and the seconds with their fraction last. -/
def parts (l : TimeLabel) : Int ×ₗ Nat ×ₗ Nat ×ₗ Nat ×ₗ Float :=
  toLex (l.year, toLex (l.day, toLex (l.hour, toLex (l.minute, l.seconds))))

/-- The parts of a label in whole numbers. -/
def clock (l : TimeLabel) : Int ×ₗ Nat ×ₗ Nat ×ₗ Nat ×ₗ Nat :=
  toLex (l.year, toLex (l.day, toLex (l.hour, toLex (l.minute, l.second))))

/-- The days of a year come before those of the next. -/
theorem InRange.year_le (h : l.InRange) (h' : l'.InRange)
    (hdays : Calendar.newYear l.year + (l.day - 1) ≤ Calendar.newYear l'.year + (l'.day - 1)) :
    l.year ≤ l'.year := by
  refine Int.not_lt.mp fun hlt => ?_
  have hover := Calendar.newYear_mono (Int.add_one_le_of_lt hlt)
  have hpos := h.day_pos
  have hle' := h'.day_le
  rw [Calendar.newYear_succ] at hover
  omega

/-- The whole seconds since 1900. -/
theorem InRange.instant_div (h : l.InRange) :
    l.instant / microsPerSecond = (Calendar.newYear l.year + (l.day - 1)) * 86400
      + (l.hour * 3600 + l.minute * 60 + l.second) := by
  have hmicro := h.micro
  simp only [instant, timeOfDay, microsPerDay, microsPerSecond]
  omega

theorem InRange.instant_mod (h : l.InRange) : l.instant % microsPerSecond = l.micro := by
  have hmicro := h.micro
  simp only [instant, timeOfDay, microsPerDay, microsPerSecond]
  omega

theorem InRange.clock_lt (h : l.InRange) (h' : l'.InRange)
    (hlt : l.instant / microsPerSecond < l'.instant / microsPerSecond) : l.clock < l'.clock := by
  rw [h.instant_div, h'.instant_div] at hlt
  have hyear := h.year_le h'
  obtain ⟨-, -, hhour, hminute, hsecond, -⟩ := h
  obtain ⟨-, -, hhour', hminute', hsecond', -⟩ := h'
  simp only [clock, Prod.Lex.toLex_lt_toLex]
  rcases Int.lt_or_eq_of_le (hyear (by omega)) with hless | hsame
  · exact .inl hless
  · rw [hsame] at hlt
    omega

theorem InRange.clock_eq (h : l.InRange) (h' : l'.InRange)
    (heq : l.instant / microsPerSecond = l'.instant / microsPerSecond) : l.clock = l'.clock := by
  rw [h.instant_div, h'.instant_div] at heq
  have hyear := h.year_le h'
  have hyear' := h'.year_le h
  obtain ⟨hpos, -, hhour, hminute, hsecond, -⟩ := h
  obtain ⟨hpos', -, hhour', hminute', hsecond', -⟩ := h'
  have hsame : l.year = l'.year := Int.le_antisymm (hyear (by omega)) (hyear' (by omega))
  rw [hsame] at heq
  have hday : l.day = l'.day := by omega
  have hhours : l.hour = l'.hour := by omega
  have hminutes : l.minute = l'.minute := by omega
  have hseconds : l.second = l'.second := by omega
  simp only [clock, hsame, hday, hhours, hminutes, hseconds]

/-! ## Parts -/

/-- Seconds with their fraction are in the order of their microseconds. -/
theorem seconds_lt (hsecond : l.second < 60) (hmicro : l.micro < 1000000)
    (hsecond' : l'.second < 60) (hmicro' : l'.micro < 1000000)
    (h : l.second * 1000000 + l.micro < l'.second * 1000000 + l'.micro) :
    l.seconds < l'.seconds :=
  (tells_seconds hsecond hmicro).lt (tells_seconds hsecond' hmicro') (by decide) h (by omega)

theorem InRange.parts_lt (h : l.InRange) (h' : l'.InRange) (hlt : l.instant < l'.instant) :
    l.parts < l'.parts := by
  have hseconds := seconds_lt h.second h.micro h'.second h'.micro
  rcases Int.lt_or_eq_of_le (Int.ediv_le_ediv (c := microsPerSecond) (by decide) hlt.le) with
    hless | hsame
  · have hclock := h.clock_lt h' hless
    have hmicro := h.micro
    simp only [clock, parts, Prod.Lex.toLex_lt_toLex] at hclock ⊢
    exact hclock.imp_right <| And.imp_right <| Or.imp_right <| And.imp_right <| Or.imp_right <|
      And.imp_right <| Or.imp_right <| And.imp_right fun hless => hseconds (by omega)
  · -- within one second it is the microseconds that count
    have hclock := h.clock_eq h' hsame
    have hmicro : l.micro < l'.micro := by
      have hmod := h.instant_mod
      have hmod' := h'.instant_mod
      simp only [microsPerSecond] at hsame hmod hmod'
      omega
    simp only [clock, parts, Prod.Lex.toLex_lt_toLex, toLex_inj, Prod.mk.injEq] at hclock ⊢
    obtain ⟨hyear, hday, hhour, hminute, hsecond⟩ := hclock
    exact .inr ⟨hyear, .inr ⟨hday, .inr ⟨hhour, .inr ⟨hminute, hseconds (by omega)⟩⟩⟩⟩

/-! ## Text -/

theorem InRange.toList_text (h : l.InRange) (hfirst : 1900 ≤ l.year) (hlast : l.year < 2192) :
    l.text.toList = columns 4 l.year.toNat ++ 'y' :: (columns 3 l.day ++ 'd' ::
      (columns 2 l.hour ++ 'h' :: (columns 2 l.minute ++ 'm' :: (columns 2 l.second ++ ['s'])))) := by
  have hday : l.day < 10 ^ 3 := by
    have hle := h.day_le
    simp only [Calendar.daysIn] at hle
    omega
  have hyear : (toString l.year).toList = columns 4 l.year.toNat := by
    obtain ⟨year, hyear⟩ := Int.eq_ofNat_of_zero_le (by omega : 0 ≤ l.year)
    rw [hyear] at hfirst hlast ⊢
    exact toList_toString (by omega : 10 ^ 3 ≤ year) (by omega)
  have hhour := h.hour
  have hminute := h.minute
  have hsecond := h.second
  show ("" ++ toString l.year ++ "y" ++ digits 3 l.day ++ "d" ++ digits 2 l.hour ++ "h"
    ++ digits 2 l.minute ++ "m" ++ digits 2 l.second ++ "s" : String).toList = _
  simp only [String.toList_append, hyear, toList_digits (by decide : 0 < 3) hday,
    toList_digits (by decide : 0 < 2) (by omega : l.hour < 10 ^ 2),
    toList_digits (by decide : 0 < 2) (by omega : l.minute < 10 ^ 2),
    toList_digits (by decide : 0 < 2) (by omega : l.second < 10 ^ 2), List.append_assoc]
  rfl

theorem InRange.text_lt (h : l.InRange) (h' : l'.InRange) (hfirst : 1900 ≤ l.year)
    (hlast : l.year < 2192) (hfirst' : 1900 ≤ l'.year) (hlast' : l'.year < 2192)
    (hlt : l.clock < l'.clock) : l.text < l'.text := by
  show l.text.toList < l'.text.toList
  rw [h.toList_text hfirst hlast, h'.toList_text hfirst' hlast']
  have hday := h'.day_le
  have hhour := h'.hour
  have hminute := h'.minute
  have hsecond := h'.second
  simp only [Calendar.daysIn] at hday
  simp only [clock, Prod.Lex.toLex_lt_toLex] at hlt
  refine columns_lt_or_eq (by omega) (hlt.imp (by omega) (And.imp (by omega) fun hlt => ?_))
  refine columns_lt_or_eq (by omega) (hlt.imp_right (And.imp_right fun hlt => ?_))
  refine columns_lt_or_eq (by omega) (hlt.imp_right (And.imp_right fun hlt => ?_))
  refine columns_lt_or_eq (by omega) (hlt.imp_right (And.imp_right fun hlt => ?_))
  exact columns_append_lt hlt (by omega) _ _

theorem InRange.fits_text (h : l.InRange) (hfirst : 1900 ≤ l.year) (hlast : l.year < 2192) :
    Fits "YYYYyDDDdHHhMMmSSs".toList l.text.toList := by
  rw [h.toList_text hfirst hlast]
  have hyear : Fits ['Y', 'Y', 'Y', 'Y'] (columns 4 l.year.toNat) := fits_columns rfl 4 _
  have hday : Fits ['D', 'D', 'D'] (columns 3 l.day) := fits_columns rfl 3 _
  have hhour : Fits ['H', 'H'] (columns 2 l.hour) := fits_columns rfl 2 _
  have hminute : Fits ['M', 'M'] (columns 2 l.minute) := fits_columns rfl 2 _
  have hsecond : Fits ['S', 'S'] (columns 2 l.second) := fits_columns rfl 2 _
  exact hyear.append_cons rfl <| hday.append_cons rfl <| hhour.append_cons rfl <|
    hminute.append_cons rfl <| hsecond.append_cons rfl .nil

theorem InRange.length_text (h : l.InRange) (hfirst : 1900 ≤ l.year) (hlast : l.year < 2192) :
    l.text.length = 18 := by
  rw [← String.length_toList, ← (h.fits_text hfirst hlast).length_eq]
  rfl

variable {i j : Int}

theorem year_ofInstant (hi : 0 ≤ i) (hi' : i < Calendar.newYear 2192 * microsPerDay) :
    1900 ≤ (ofInstant i).year ∧ (ofInstant i).year < 2192 := by
  have hrange := inRange_ofInstant hi
  constructor
  · rw [← Int.not_lt, hrange.year_lt_iff, instant_ofInstant hi]
    exact Int.not_lt.mpr hi
  · rwa [hrange.year_lt_iff, instant_ofInstant hi]

theorem parts_ofInstant_lt (hi : 0 ≤ i) (h : i < j) :
    (ofInstant i).parts < (ofInstant j).parts := by
  have hj := hi.trans h.le
  refine (inRange_ofInstant hi).parts_lt (inRange_ofInstant hj) ?_
  rwa [instant_ofInstant hi, instant_ofInstant hj]

theorem text_ofInstant_lt (hi : 0 ≤ i) (hi' : i < Calendar.newYear 2192 * microsPerDay)
    (hj : 0 ≤ j) (hj' : j < Calendar.newYear 2192 * microsPerDay)
    (h : i / microsPerSecond < j / microsPerSecond) : (ofInstant i).text < (ofInstant j).text := by
  obtain ⟨hfirst, hlast⟩ := year_ofInstant hi hi'
  obtain ⟨hfirst', hlast'⟩ := year_ofInstant hj hj'
  refine (inRange_ofInstant hi).text_lt (inRange_ofInstant hj) hfirst hlast hfirst' hlast' ?_
  refine (inRange_ofInstant hi).clock_lt (inRange_ofInstant hj) ?_
  rwa [instant_ofInstant hi, instant_ofInstant hj]

theorem text_ofInstant_eq (hi : 0 ≤ i) (hj : 0 ≤ j)
    (h : i / microsPerSecond = j / microsPerSecond) : (ofInstant i).text = (ofInstant j).text := by
  have hclock := (inRange_ofInstant hi).clock_eq (inRange_ofInstant hj)
    (by rwa [instant_ofInstant hi, instant_ofInstant hj])
  simp only [clock, toLex_inj, Prod.mk.injEq] at hclock
  obtain ⟨hyear, hday, hhour, hminute, hsecond⟩ := hclock
  rw [text, hyear, hday, hhour, hminute, hsecond]
  rfl

theorem text_ofInstant_lt_iff (hi : 0 ≤ i) (hi' : i < Calendar.newYear 2192 * microsPerDay)
    (hj : 0 ≤ j) (hj' : j < Calendar.newYear 2192 * microsPerDay) :
    (ofInstant i).text < (ofInstant j).text ↔ i / microsPerSecond < j / microsPerSecond := by
  refine ⟨fun h => ?_, text_ofInstant_lt hi hi' hj hj'⟩
  rcases Int.lt_trichotomy (i / microsPerSecond) (j / microsPerSecond) with hless | hsame | hmore
  · exact hless
  · rw [text_ofInstant_eq hi hj hsame] at h
    exact absurd h (String.lt_irrefl _)
  · exact absurd h (String.lt_asymm (text_ofInstant_lt hj hj' hi hi' hmore))

theorem text_ofInstant_eq_iff (hi : 0 ≤ i) (hi' : i < Calendar.newYear 2192 * microsPerDay)
    (hj : 0 ≤ j) (hj' : j < Calendar.newYear 2192 * microsPerDay) :
    (ofInstant i).text = (ofInstant j).text ↔ i / microsPerSecond = j / microsPerSecond := by
  refine ⟨fun h => ?_, text_ofInstant_eq hi hj⟩
  have hless := text_ofInstant_lt_iff hi hi' hj hj'
  have hmore := text_ofInstant_lt_iff hj hj' hi hi'
  rw [h] at hless hmore
  have hirrefl := String.lt_irrefl (ofInstant j).text
  exact Int.le_antisymm (Int.not_lt.mp (mt hmore.mpr hirrefl))
    (Int.not_lt.mp (mt hless.mpr hirrefl))

end TimeLabel

theorem StartTime.sliceInstant_lt (start : StartTime) {integration a b : Int32}
    (hpos : 0 < integration) (h : a < b) :
    start.sliceInstant a.toInt integration.toInt < start.sliceInstant b.toInt integration.toInt := by
  have hpos' : 0 < integration.toInt := Int32.lt_iff_toInt_lt.mp hpos
  exact Int.add_lt_add_left (Int.mul_lt_mul_of_pos_right (Int32.lt_iff_toInt_lt.mp h) hpos') _

/-- Labels sort as time does.  A later slice has the later label, part by part, down to the
fraction of a second, whatever years, leap days and hours begin between the two.  The texts all
have one shape and are in the order of the whole seconds. -/
theorem StartTime.sliceLabels_sort :
    (∀ (start : StartTime) (integration a b : Int32), 0 < integration → a < b →
      0 ≤ start.sliceInstant a.toInt integration.toInt →
        (start.sliceLabel a.toInt integration.toInt).parts
          < (start.sliceLabel b.toInt integration.toInt).parts) ∧
    ∀ i j : Int, 0 ≤ i → i < Calendar.newYear 2192 * microsPerDay →
      0 ≤ j → j < Calendar.newYear 2192 * microsPerDay →
        let text := (TimeLabel.ofInstant i).text
        let text' := (TimeLabel.ofInstant j).text
        text.length = 18 ∧ TimeLabel.Fits "YYYYyDDDdHHhMMmSSs".toList text.toList ∧
          (text < text' ↔ i / microsPerSecond < j / microsPerSecond) ∧
          (text = text' ↔ i / microsPerSecond = j / microsPerSecond) := by
  refine ⟨fun start integration a b hpos hlt hfirst => ?_, fun i j hi hi' hj hj' => ?_⟩
  · exact TimeLabel.parts_ofInstant_lt hfirst (start.sliceInstant_lt hpos hlt)
  · have hrange := TimeLabel.inRange_ofInstant hi
    obtain ⟨hyear, hyear'⟩ := TimeLabel.year_ofInstant hi hi'
    exact ⟨hrange.length_text hyear hyear', hrange.fits_text hyear hyear',
      TimeLabel.text_ofInstant_lt_iff hi hi' hj hj', TimeLabel.text_ofInstant_eq_iff hi hi' hj hj'⟩

/-- Around the end of a leap year, with four slices a second: two slices of the last second have
labels that differ in the fraction only, and the next slice belongs to the next year. -/
theorem StartTime.sliceLabels_sort_at_leap_year :
    let start : StartTime := ⟨2020, 366, 86399⟩
    let i := start.sliceInstant 3 250000
    let j := start.sliceInstant 4 250000
    (start.sliceLabel 2 250000).parts < (start.sliceLabel 3 250000).parts ∧
      (start.sliceLabel 2 250000).text = (start.sliceLabel 3 250000).text ∧
      0 ≤ i ∧ i < Calendar.newYear 2192 * microsPerDay ∧
      0 ≤ j ∧ j < Calendar.newYear 2192 * microsPerDay ∧
      start.sliceLabel 3 250000 = ⟨2020, 366, 23, 59, 59, 750000⟩ ∧
      start.sliceLabel 4 250000 = ⟨2021, 1, 0, 0, 0, 0⟩ ∧
      (start.sliceLabel 3 250000).text < (start.sliceLabel 4 250000).text := by
  intro start i j
  obtain ⟨hparts, htexts⟩ := StartTime.sliceLabels_sort
  have hi : 0 ≤ i := by decide
  have hi' : i < Calendar.newYear 2192 * microsPerDay := by decide
  have hj : 0 ≤ j := by decide
  have hj' : j < Calendar.newYear 2192 * microsPerDay := by decide
  obtain ⟨-, -, -, hsame⟩ := htexts (start.sliceInstant 2 250000) i (by decide) (by decide) hi hi'
  obtain ⟨-, -, hless, -⟩ := htexts i j hi hi' hj hj'
  exact ⟨hparts start 250000 2 3 (by decide) (by decide) (by decide), hsame.mpr (by decide),
    hi, hi', hj, hj', by decide, by decide, hless.mpr (by decide)⟩

end Correlator
