/-!
# Years and days

The Gregorian calendar carried on in both directions, without leap seconds.  Days
are counted from 1 January 1900, which is day zero.  The years before 1900 are only
counted roughly.
-/

namespace Correlator
namespace Calendar

/-- Days from 1 January of year 1 to 1 January of `year`: 365 a year and one for each
leap day in between. -/
def daysBefore (year : Int) : Int :=
  let past := year - 1
  365 * past + past / 4 - past / 100 + past / 400

/-- The day of 1 January of `year`. -/
def newYear (year : Int) : Int := daysBefore year - daysBefore 1900

/-- Every fourth year, but of the full centuries only every fourth. -/
def IsLeap (year : Int) : Prop := year % 4 = 0 ∧ (year % 100 ≠ 0 ∨ year % 400 = 0)

instance (year : Int) : Decidable (IsLeap year) := inferInstanceAs (Decidable (_ ∧ _))

def daysIn (year : Int) : Int := if IsLeap year then 366 else 365

/-- The year that a day lies in.  Four hundred years have 146097 days, which gives the
year or one beside it. -/
def yearOf (day : Int) : Int :=
  let guess := (day + daysBefore 1900) * 400 / 146097 + 1
  if day < newYear guess then guess - 1
  else if newYear (guess + 1) ≤ day then guess + 1
  else guess

/-- Days from the start of a year to the start of each month. -/
def monthStarts (year : Int) : List Int :=
  [0, 31] ++ [59, 90, 120, 151, 181, 212, 243, 273, 304, 334].map
    fun day => if IsLeap year then day + 1 else day

/-- The year of an instant before 1900, counted back from 1900 in years of 365 days.
`day` begins with the first midnight that is not before the instant.  The count is
rough: the last day of a month falls to the year before, an instant that is itself a
midnight to the year after, and of the days by which the leap years in between have
moved the new year only one is made up for. -/
def yearCountedBack (day : Int) (midnight : Bool) : Int :=
  let year := 1900 + day / 365
  let passed := day - newYear year
  if passed ∈ monthStarts year then if midnight then year else year - 1
  else if midnight ∨ passed = daysIn year + 1 then year + 1
  else year

theorem newYear_succ (year : Int) : newYear (year + 1) = newYear year + daysIn year := by
  simp only [newYear, daysBefore, daysIn]
  by_cases h : IsLeap year
  · rw [if_pos h]
    simp only [IsLeap] at h
    omega
  · rw [if_neg h]
    simp only [IsLeap] at h
    omega

end Calendar
end Correlator
