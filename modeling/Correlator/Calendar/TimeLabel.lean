import Correlator.Calendar.Date

/-!
# Labels for instants

An instant is a number of microseconds since the start of 1900.  A `TimeLabel` takes
it apart into year, day of the year and time of day.
-/

namespace Correlator

/-- When a recording starts.  The day and the second are offsets from the start of
the year, whatever their sign and size. -/
structure StartTime where
  year : Int
  day : Int
  second : Int
deriving DecidableEq, Repr

def microsPerSecond : Int := 1000000

def microsPerDay : Int := 86400 * microsPerSecond

namespace StartTime

/-- The start in microseconds since 1900. -/
def instant (s : StartTime) : Int :=
  (Calendar.newYear s.year + (s.day - 1)) * microsPerDay + s.second * microsPerSecond

/-- The instant of a slice, for slices of `integration` microseconds. -/
def sliceInstant (s : StartTime) (slice : Int) (integration : Int) : Int :=
  s.instant + slice * integration

end StartTime

/-- An instant on the calendar, to the microsecond. -/
structure TimeLabel where
  year : Int
  /-- Day of the year, from one. -/
  day : Nat
  hour : Nat
  minute : Nat
  second : Nat
  micro : Nat
deriving DecidableEq, Repr

namespace TimeLabel

/-- The year that an instant is labelled with. -/
def yearOf (instant : Int) : Int :=
  if instant < 0 then
    Calendar.yearCountedBack (-(-instant / microsPerDay)) (instant % microsPerDay = 0)
  else Calendar.yearOf (instant / microsPerDay)

/-- A label never shows a day before the first of its year. -/
def ofInstant (instant : Int) : TimeLabel :=
  let day := instant / microsPerDay
  let time := (instant % microsPerDay).toNat
  let year := yearOf instant
  { year
    day := (day - Calendar.newYear year).toNat + 1
    hour := time / 3600000000
    minute := time / 60000000 % 60
    second := time / 1000000 % 60
    micro := time % 1000000 }

/-- The seconds of the minute with their fraction. -/
def seconds (l : TimeLabel) : Float :=
  Float.ofNat l.second + Float.ofNat (l.micro * 1000) / 1e9

/-- Seconds since midnight with their fraction. -/
def secondOfDay (l : TimeLabel) : Float :=
  Float.ofNat l.hour * 3600 + Float.ofNat l.minute * 60 + l.seconds

/-- A number with at least `width` digits. -/
def digits (width n : Nat) : String :=
  let text := Nat.toDigits 10 n
  String.ofList (List.replicate (width - text.length) '0' ++ text)

/-- The label as text, with whole seconds. -/
def text (l : TimeLabel) : String :=
  s!"{l.year}y{digits 3 l.day}d{digits 2 l.hour}h{digits 2 l.minute}m{digits 2 l.second}s"

end TimeLabel

def StartTime.sliceLabel (s : StartTime) (slice : Int) (integration : Int) : TimeLabel :=
  TimeLabel.ofInstant (s.sliceInstant slice integration)

end Correlator
