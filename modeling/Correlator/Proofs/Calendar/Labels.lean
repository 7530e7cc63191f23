import Correlator.Calendar.TimeLabel
import Correlator.Proofs.Double.Rounding

/-!
# Labels and the instants they stand for

`TimeLabel.instant` puts a label together again.  Among the labels whose parts are all in range
it is the inverse of `TimeLabel.ofInstant` (`instant_ofInstant`, `ofInstant_instant`), so that
from 1900 on each instant has one label and each label is that of one instant.  Seconds with
their fraction are doubles; what they tell is true to the microsecond (`Tells.about`).
-/

namespace Correlator

namespace Calendar

theorem newYear_mono {year year' : Int} (h : year ≤ year') : newYear year ≤ newYear year' := by
  simp only [newYear, daysBefore]
  omega

/-- A day lies in its year.  The first guess is off by at most one year, and the new years on
both sides of it put it right. -/
theorem newYear_yearOf (day : Int) :
    newYear (yearOf day) ≤ day ∧ day < newYear (yearOf day + 1) := by
  have hguess : newYear ((day + daysBefore 1900) * 400 / 146097) ≤ day ∧
      day < newYear ((day + daysBefore 1900) * 400 / 146097 + 1 + 1 + 1) := by
    simp only [newYear, daysBefore]
    omega
  unfold yearOf
  dsimp only
  split
  · rename_i hlate
    rw [Int.add_sub_cancel]
    exact ⟨hguess.1, hlate⟩
  · split
    · rename_i hearly
      exact ⟨hearly, hguess.2⟩
    · omega

/-- And in no other year: of two years one is over before the other begins. -/
theorem yearOf_eq {year day : Int} (hfirst : newYear year ≤ day)
    (hlast : day < newYear (year + 1)) : yearOf day = year := by
  obtain ⟨hfirst', hlast'⟩ := newYear_yearOf day
  rcases Int.lt_trichotomy (yearOf day) year with hlt | heq | hlt
  · have hover := newYear_mono (Int.add_one_le_of_lt hlt)
    omega
  · exact heq
  · have hover := newYear_mono (Int.add_one_le_of_lt hlt)
    omega

end Calendar

namespace TimeLabel

/-- Every part of a label is in range: the day is a day of the year, the hour an hour of the
day, and so on. -/
structure InRange (l : TimeLabel) : Prop where
  day_pos : 1 ≤ l.day
  day_le : (l.day : Int) ≤ Calendar.daysIn l.year
  hour : l.hour < 24
  minute : l.minute < 60
  second : l.second < 60
  micro : l.micro < 1000000

/-- Microseconds since midnight. -/
def timeOfDay (l : TimeLabel) : Int :=
  (l.hour * 3600 + l.minute * 60 + l.second) * microsPerSecond + l.micro

/-- The instant that a label stands for. -/
def instant (l : TimeLabel) : Int :=
  (Calendar.newYear l.year + (l.day - 1)) * microsPerDay + l.timeOfDay

variable {l : TimeLabel} {i : Int}

theorem InRange.timeOfDay_lt (h : l.InRange) :
    0 ≤ l.timeOfDay ∧ l.timeOfDay < microsPerDay := by
  have hhour := h.hour
  have hminute := h.minute
  have hsecond := h.second
  have hmicro := h.micro
  simp only [timeOfDay, microsPerDay, microsPerSecond]
  omega

/-- The day of the instant is the day of the label, and what is left is the time of day. -/
theorem InRange.instant_divMod (h : l.InRange) :
    l.instant / microsPerDay = Calendar.newYear l.year + (l.day - 1) ∧
      l.instant % microsPerDay = l.timeOfDay := by
  obtain ⟨hzero, hlt⟩ := h.timeOfDay_lt
  simp only [instant, microsPerDay, microsPerSecond] at hlt ⊢
  omega

theorem InRange.yearOf_day (h : l.InRange) :
    Calendar.yearOf (l.instant / microsPerDay) = l.year := by
  have hpos := h.day_pos
  have hle := h.day_le
  rw [h.instant_divMod.1]
  apply Calendar.yearOf_eq
  · omega
  · rw [Calendar.newYear_succ]
    omega

theorem yearOf_of_nonneg (hi : 0 ≤ i) : yearOf i = Calendar.yearOf (i / microsPerDay) := by
  rw [yearOf, if_neg (Int.not_lt.mpr hi)]

theorem inRange_ofInstant (hi : 0 ≤ i) : (ofInstant i).InRange := by
  obtain ⟨hfirst, hlast⟩ := Calendar.newYear_yearOf (i / microsPerDay)
  rw [Calendar.newYear_succ] at hlast
  have htime : (i % microsPerDay).toNat < 86400000000 := by
    simp only [microsPerDay, microsPerSecond]
    omega
  refine ⟨Nat.le_add_left 1 _, ?_, ?_, Nat.mod_lt _ (by decide), Nat.mod_lt _ (by decide),
    Nat.mod_lt _ (by decide)⟩
  · show (((i / microsPerDay - Calendar.newYear (yearOf i)).toNat + 1 : Nat) : Int) ≤
      Calendar.daysIn (yearOf i)
    rw [yearOf_of_nonneg hi]
    omega
  · show (i % microsPerDay).toNat / 3600000000 < 24
    omega

theorem timeOfDay_ofInstant (i : Int) : (ofInstant i).timeOfDay = i % microsPerDay := by
  have hzero : 0 ≤ i % microsPerDay := Int.emod_nonneg i (by decide)
  show ((((i % microsPerDay).toNat / 3600000000 : Nat) : Int) * 3600 +
    ((i % microsPerDay).toNat / 60000000 % 60 : Nat) * 60 +
    ((i % microsPerDay).toNat / 1000000 % 60 : Nat)) * microsPerSecond +
    ((i % microsPerDay).toNat % 1000000 : Nat) = i % microsPerDay
  generalize i % microsPerDay = time at hzero ⊢
  simp only [microsPerSecond]
  omega

/-- Nothing of an instant is lost in its label. -/
theorem instant_ofInstant (hi : 0 ≤ i) : (ofInstant i).instant = i := by
  obtain ⟨hfirst, -⟩ := Calendar.newYear_yearOf (i / microsPerDay)
  have hday : ((ofInstant i).day : Int) - 1 =
      i / microsPerDay - Calendar.newYear (ofInstant i).year := by
    show (((i / microsPerDay - Calendar.newYear (yearOf i)).toNat + 1 : Nat) : Int) - 1 =
      i / microsPerDay - Calendar.newYear (yearOf i)
    rw [yearOf_of_nonneg hi]
    omega
  have hdivMod := Int.mul_ediv_add_emod i microsPerDay
  rw [instant, timeOfDay_ofInstant, hday, Int.add_comm (Calendar.newYear _), Int.sub_add_cancel,
    Int.mul_comm, hdivMod]

theorem toNat_timeOfDay (l : TimeLabel) :
    l.timeOfDay.toNat = (l.hour * 3600 + l.minute * 60 + l.second) * 1000000 + l.micro :=
  Int.toNat_natCast ((l.hour * 3600 + l.minute * 60 + l.second) * 1000000 + l.micro)

/-- A label in range is the label of the instant that it stands for. -/
theorem ofInstant_instant (h : l.InRange) (hi : 0 ≤ l.instant) : ofInstant l.instant = l := by
  obtain ⟨hday, htime⟩ := h.instant_divMod
  have hyear : yearOf l.instant = l.year := by rw [yearOf_of_nonneg hi, h.yearOf_day]
  have hpos := h.day_pos
  have hhour := h.hour
  have hminute := h.minute
  have hsecond := h.second
  have hmicro := h.micro
  unfold ofInstant
  rw [hyear, hday, htime, toNat_timeOfDay]
  obtain ⟨year, day, hour, minute, second, micro⟩ := l
  simp only [mk.injEq, true_and] at *
  omega

/-- Years are in the order of their instants. -/
theorem InRange.year_lt_iff (h : l.InRange) (year : Int) :
    l.year < year ↔ l.instant < Calendar.newYear year * microsPerDay := by
  have hpos := h.day_pos
  have hle := h.day_le
  have hsucc := Calendar.newYear_succ l.year
  have hday := h.instant_divMod.1
  simp only [microsPerDay, microsPerSecond] at hday ⊢
  constructor
  · intro hlt
    have hover := Calendar.newYear_mono (Int.add_one_le_of_lt hlt)
    omega
  · intro hlt
    refine Int.not_le.mp fun hyear => ?_
    have hover := Calendar.newYear_mono hyear
    omega

/-! ## Seconds with their fraction -/

section Seconds

open Double (Stands Within)

/-- The double stands for a time, in seconds, that is out by no more than `k` parts in
`2 ^ 52`. -/
def Tells (k : Nat) (x : Float) (micros : Nat) : Prop :=
  ∃ u, Stands x u ∧ Within k u (micros / 10 ^ 6)

variable {k m n : Nat} {x y : Float}

/-- A time is zero or not shorter than a microsecond. -/
theorem zero_or_micro_le (m : Nat) : (m : Rat) / 10 ^ 6 = 0 ∨ 1 / 10 ^ 6 ≤ (m : Rat) / 10 ^ 6 := by
  rcases Nat.eq_zero_or_pos m with rfl | hpos
  · exact .inl (by rw [Nat.cast_zero, zero_div])
  · have hone : (1 : Rat) ≤ m := by exact_mod_cast hpos
    exact .inr (by gcongr)

/-- A number that is close to a time of no more than three years is moderate. -/
theorem moderate_of_within {u : Rat} (h : Within k u (m / 10 ^ 6)) (hk : k ≤ 100)
    (hm : m ≤ 10 ^ 14) : Double.Moderate u := by
  have hmost : (m : Rat) ≤ 10 ^ 14 := by exact_mod_cast hm
  exact h.moderate (hk.trans (by decide)) (zero_or_micro_le m) (by linarith)

theorem wholeSeconds (n : Nat) : ((n * 1000000 : Nat) : Rat) / 10 ^ 6 = n := by
  push_cast
  ring

theorem tells_of_stands (h : Stands x n) : Tells 0 x (n * 1000000) :=
  ⟨n, h, by rw [wholeSeconds]; exact .refl _⟩

theorem tells_ofNat (hn : n < 2 ^ 53) : Tells 4 (Float.ofNat n) (n * 1000000) := by
  obtain ⟨u, hu, hwithin⟩ := Double.stands_ofNat hn
  exact ⟨u, hu, by rwa [wholeSeconds]⟩

namespace Tells

theorem mono {k' : Nat} (h : Tells k x m) (hle : k ≤ k') : Tells k' x m := by
  obtain ⟨u, hu, hwithin⟩ := h
  exact ⟨u, hu, hwithin.mono hle (by positivity)⟩

theorem add (hx : Tells k x m) (hy : Tells k y n) (hk : k ≤ 100) (hmost : m + n ≤ 10 ^ 14) :
    Tells (k + 2) (x + y) (m + n) := by
  obtain ⟨u, hu, hwithin⟩ := hx
  obtain ⟨v, hv, hwithin'⟩ := hy
  have hsum : Within k (u + v) ((m + n : Nat) / 10 ^ 6) := by
    rw [Nat.cast_add, add_div]
    exact hwithin.add hwithin'
  obtain ⟨w, hw, hnear⟩ := Double.stands_add hu hv (moderate_of_within hsum hk hmost)
  exact ⟨w, hw, hsum.round (hk.trans (by decide)) (by positivity) hnear⟩

theorem mul (hx : Tells k x m) (hy : Stands y n) (hk : k ≤ 100) (hmost : m * n ≤ 10 ^ 14) :
    Tells (k + 2) (x * y) (m * n) := by
  obtain ⟨u, hu, hwithin⟩ := hx
  have hproduct : Within k (u * n) ((m * n : Nat) / 10 ^ 6) := by
    rw [Nat.cast_mul, mul_div_right_comm]
    exact hwithin.mul (Nat.cast_nonneg n)
  obtain ⟨v, hv, hnear⟩ := Double.stands_mul hu hy (moderate_of_within hproduct hk hmost)
  exact ⟨v, hv, hproduct.round (hk.trans (by decide)) (by positivity) hnear⟩

theorem div (hx : Tells k x (m * n)) (hy : Stands y n) (hpos : 0 < n) (hk : k ≤ 100)
    (hmost : m ≤ 10 ^ 14) : Tells (k + 2) (x / y) m := by
  obtain ⟨u, hu, hwithin⟩ := hx
  have hpos' : (0 : Rat) < n := by exact_mod_cast hpos
  have hquotient : Within k (u / n) (m / 10 ^ 6) := by
    have hexact : ((m * n : Nat) : Rat) / 10 ^ 6 / n = m / 10 ^ 6 := by
      push_cast
      field_simp
    rw [← hexact]
    exact hwithin.div hpos'.le
  obtain ⟨v, hv, hnear⟩ := Double.stands_div hu hy hpos' (moderate_of_within hquotient hk hmost)
  exact ⟨v, hv, hquotient.round (hk.trans (by decide)) (by positivity) hnear⟩

/-- Within a day the microsecond is told. -/
theorem about (h : Tells k x m) (hk : k ≤ 100) (hm : m ≤ 86400000000) :
    ∃ u, Stands x u ∧ |u - m / 10 ^ 6| < 1 / 4000000 := by
  obtain ⟨u, hu, hwithin⟩ := h
  refine ⟨u, hu, ?_⟩
  have hk' : (k : Rat) ≤ 100 := by exact_mod_cast hk
  have hm' : (m : Rat) ≤ 86400000000 := by exact_mod_cast hm
  calc |u - m / 10 ^ 6| ≤ (k : Rat) * (m / 10 ^ 6) / 2 ^ 52 := hwithin
    _ ≤ 100 * (86400000000 / 10 ^ 6) / 2 ^ 52 := by gcongr
    _ < 1 / 4000000 := by norm_num

/-- Times within a day are in the order of their microseconds. -/
theorem lt (hx : Tells k x m) (hy : Tells k y n) (hk : k ≤ 100) (h : m < n)
    (hn : n ≤ 86400000000) : x < y := by
  obtain ⟨u, hu, hnear⟩ := hx.about hk (h.le.trans hn)
  obtain ⟨v, hv, hnear'⟩ := hy.about hk hn
  rw [abs_lt] at hnear hnear'
  have hapart : (m + 1 : Rat) ≤ n := by exact_mod_cast h
  exact Double.lt_of_stands hu hv (by linarith)

theorem zero_le (h : Tells k x m) : 0 ≤ x := by
  obtain ⟨u, hu, -⟩ := h
  exact Double.zero_le_of_stands hu

end Tells

theorem stands_minute : Stands 60 (60 : Nat) :=
  Double.stands_of_unpack (k := 47) (by decide) rfl

theorem tells_seconds (hsecond : l.second < 60) (hmicro : l.micro < 1000000) :
    Tells 8 l.seconds (l.second * 1000000 + l.micro) := by
  have hnanos : Stands 1e9 (10 ^ 9 : Nat) :=
    Double.stands_of_unpack (k := 23) (by decide) rfl
  have hpart : Tells 4 (Float.ofNat (l.micro * 1000)) (l.micro * 10 ^ 9) := by
    have hexact : l.micro * 1000 * 1000000 = l.micro * 10 ^ 9 := Nat.mul_assoc _ _ _
    rw [← hexact]
    exact tells_ofNat (by omega)
  have hwhole : Tells 4 (Float.ofNat l.second) (l.second * 1000000) := tells_ofNat (by omega)
  exact (hwhole.mono (by decide)).add
    (hpart.div hnanos (by decide) (by decide) (by omega)) (by decide) (by omega)

theorem InRange.tells_secondOfDay (h : l.InRange) :
    Tells 10 l.secondOfDay (l.hour * 1000000 * 3600 + l.minute * 1000000 * 60
      + (l.second * 1000000 + l.micro)) := by
  have hhour := h.hour
  have hminute := h.minute
  have hsecond := h.second
  have hmicro := h.micro
  have hperHour : Stands 3600 (3600 : Nat) :=
    Double.stands_of_unpack (k := 41) (by decide) rfl
  have hhours := (tells_ofNat (by omega : l.hour < 2 ^ 53)).mul hperHour (by decide) (by omega)
  have hminutes :=
    (tells_ofNat (by omega : l.minute < 2 ^ 53)).mul stands_minute (by decide) (by omega)
  exact (hhours.add hminutes (by decide) (by omega)).add (tells_seconds hsecond hmicro)
    (by decide) (by omega)

/-- The seconds of a label are less than a minute, and true to the microsecond. -/
theorem InRange.seconds_about (h : l.InRange) :
    0 ≤ l.seconds ∧ l.seconds < 60 ∧
      ∃ u, Stands l.seconds u ∧ |u - (l.second + l.micro / 10 ^ 6)| < 1 / 4000000 := by
  have hsecond := h.second
  have hmicro := h.micro
  have htells := tells_seconds hsecond hmicro
  have hminute := (tells_of_stands stands_minute).mono (Nat.zero_le 8)
  obtain ⟨u, hu, hnear⟩ := htells.about (by decide) (by omega)
  have hexact : ((l.second * 1000000 + l.micro : Nat) : Rat) / 10 ^ 6
      = l.second + l.micro / 10 ^ 6 := by
    push_cast
    ring
  rw [hexact] at hnear
  exact ⟨htells.zero_le, htells.lt hminute (by decide) (by omega) (by decide), u, hu, hnear⟩

/-- The time since midnight is less than a day, and true to the microsecond. -/
theorem InRange.secondOfDay_about (h : l.InRange) :
    0 ≤ l.secondOfDay ∧ l.secondOfDay < 86400 ∧
      ∃ u, Stands l.secondOfDay u ∧
        |u - (l.hour * 3600 + l.minute * 60 + l.second + l.micro / 10 ^ 6)| < 1 / 4000000 := by
  have hhour := h.hour
  have hminute := h.minute
  have hsecond := h.second
  have hmicro := h.micro
  have htells := h.tells_secondOfDay
  have hday : Stands 86400 (86400 : Nat) :=
    Double.stands_of_unpack (k := 36) (by decide) rfl
  obtain ⟨u, hu, hnear⟩ := htells.about (by decide) (by omega)
  have hexact : ((l.hour * 1000000 * 3600 + l.minute * 1000000 * 60
      + (l.second * 1000000 + l.micro) : Nat) : Rat) / 10 ^ 6
      = l.hour * 3600 + l.minute * 60 + l.second + l.micro / 10 ^ 6 := by
    push_cast
    ring
  rw [hexact] at hnear
  exact ⟨htells.zero_le,
    htells.lt ((tells_of_stands hday).mono (Nat.zero_le 10)) (by decide) (by omega) (by decide),
    u, hu, hnear⟩

end Seconds

end TimeLabel

/-- Two numbers of 32 bits have a product of fewer than 64. -/
theorem mul_toInt_lt (a b : Int32) :
    -2 ^ 63 ≤ a.toInt * b.toInt ∧ a.toInt * b.toInt < 2 ^ 63 := by
  have ha : a.toInt.natAbs ≤ 2 ^ 31 := by
    have hleast := a.le_toInt
    have hgreatest := a.toInt_lt
    omega
  have hb : b.toInt.natAbs ≤ 2 ^ 31 := by
    have hleast := b.le_toInt
    have hgreatest := b.toInt_lt
    omega
  have hproduct := Nat.mul_le_mul ha hb
  rw [← Int.natAbs_mul] at hproduct
  omega

/-- The label of a slice takes its instant apart, to the microsecond and in the only way there
is, wherever the start lies in its year or beside it.  Starts and slices that come to the same
instant have the same label, and the time between start and slice fits into 64 bits.  The
seconds and the time since midnight, as doubles, stay below a minute and below a day, and are
out by less than a quarter of a microsecond. -/
theorem StartTime.sliceLabel_takes_apart (start : StartTime) (slice integration : Int32)
    (hfirst : 0 ≤ start.sliceInstant slice.toInt integration.toInt)
    (hlast : start.sliceInstant slice.toInt integration.toInt <
      Calendar.newYear 2192 * microsPerDay) :
    let instant := start.sliceInstant slice.toInt integration.toInt
    let label := start.sliceLabel slice.toInt integration.toInt
    label.InRange ∧ label.instant = instant ∧ 1900 ≤ label.year ∧ label.year < 2192 ∧
      (∀ other : TimeLabel, other.InRange → other.instant = instant → other = label) ∧
      (∀ (start' : StartTime) (slice' integration' : Int32),
        start'.sliceInstant slice'.toInt integration'.toInt = instant →
          start'.sliceLabel slice'.toInt integration'.toInt = label) ∧
      (-2 ^ 63 ≤ slice.toInt * integration.toInt ∧ slice.toInt * integration.toInt < 2 ^ 63) ∧
      (0 ≤ label.seconds ∧ label.seconds < 60 ∧
        ∃ u, Double.Stands label.seconds u ∧
          |u - (label.second + label.micro / 10 ^ 6)| < 1 / 4000000) ∧
      0 ≤ label.secondOfDay ∧ label.secondOfDay < 86400 ∧
        ∃ u, Double.Stands label.secondOfDay u ∧
          |u - (label.hour * 3600 + label.minute * 60 + label.second + label.micro / 10 ^ 6)|
            < 1 / 4000000 := by
  intro instant label
  have hrange : label.InRange := TimeLabel.inRange_ofInstant hfirst
  have hinstant : label.instant = instant := TimeLabel.instant_ofInstant hfirst
  refine ⟨hrange, hinstant, ?_, ?_, ?_, ?_, mul_toInt_lt slice integration,
    hrange.seconds_about, hrange.secondOfDay_about⟩
  · rw [← Int.not_lt, hrange.year_lt_iff, hinstant]
    exact Int.not_lt.mpr hfirst
  · rwa [hrange.year_lt_iff, hinstant]
  · intro other hother heq
    rw [← TimeLabel.ofInstant_instant hother (heq ▸ hfirst), heq]
    rfl
  · intro start' slice' integration' heq
    exact congrArg TimeLabel.ofInstant heq

/-- 1000 seconds after the last 400 seconds of a leap year have begun, it is ten minutes past
midnight on the first day of the next year.  No other label will do. -/
theorem StartTime.sliceLabel_of_leap_year :
    let start : StartTime := ⟨2020, 366, 86000⟩
    let label : TimeLabel := ⟨2021, 1, 0, 10, 0, 0⟩
    0 ≤ start.sliceInstant 1 1000000000 ∧
      start.sliceInstant 1 1000000000 < Calendar.newYear 2192 * microsPerDay ∧
      start.sliceLabel 1 1000000000 = label ∧
      ∀ other : TimeLabel, other.InRange →
        other.instant = start.sliceInstant 1 1000000000 → other = label := by
  intro start label
  have hfirst : 0 ≤ start.sliceInstant 1 1000000000 := by decide
  have hlast : start.sliceInstant 1 1000000000 < Calendar.newYear 2192 * microsPerDay := by decide
  have hlabel : start.sliceLabel 1 1000000000 = label := by decide
  obtain ⟨-, -, -, -, hunique, -⟩ := start.sliceLabel_takes_apart 1 1000000000 hfirst hlast
  refine ⟨hfirst, hlast, hlabel, fun other hother heq => ?_⟩
  rw [← hlabel]
  exact hunique other hother heq

end Correlator
