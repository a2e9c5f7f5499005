import Scheduling.Time.Zone
/-!
# Offset changes of the supported zones

Zones whose clocks change by a yearly rule are spelled out from that rule for the years 2009 to
2099; zones without a lasting rule are listed change by change.
-/

namespace Scheduling.Zone

open Calendar

/-- The day of a date, counted from 1970-01-01. -/
private def dayOf (year : Int) (month day : Nat) : Int :=
  (Date.mk year month day).toDays

/-- The `n`-th Sunday of a month, counted from 1. -/
def nthSunday (n : Nat) (year : Int) (month : Nat) : Int :=
  let first := dayOf year month 1
  first + (8 - weekday first) % 7 + 7 * (n - 1)

/-- The last Sunday of a month. -/
def lastSunday (year : Int) (month : Nat) : Int :=
  let last := dayOf year month (monthLength year month)
  last - (weekday last - 1 : Nat)

/-- A change that comes back every year: its day, the second of that day in UTC (negative for the
day before), and the offset from then on. -/
structure YearlyChange where
  day : Int → Int
  second : Int
  offset : Int

/-- The instant and offset of a yearly change in one year. -/
def YearlyChange.inYear (c : YearlyChange) (year : Int) : Int × Int :=
  (c.day year * 86400 + c.second, c.offset)

/-- The years `first` to `last`. -/
def years (first last : Nat) : List Int :=
  (List.range' first (last + 1 - first)).map Int.ofNat

/-- Two changes a year over a span of years. -/
def yearly (first last : Nat) (earlier later : YearlyChange) : List (Int × Int) :=
  (years first last).flatMap fun y => [earlier.inYear y, later.inYear y]

/-- Central European time: one hour ahead, two from the last Sunday of March to that of October. -/
def centralEurope : Zone :=
  ⟨3600, yearly 2009 2099
    ⟨(lastSunday · 3), 3600, 7200⟩
    ⟨(lastSunday · 10), 3600, 3600⟩⟩

/-- Eastern time of North America: summer time from the second Sunday of March to the first of
November. -/
def easternAmerica : Zone :=
  ⟨-18000, yearly 2009 2099
    ⟨(nthSunday 2 · 3), 25200, -14400⟩
    ⟨(nthSunday 1 · 11), 21600, -18000⟩⟩

/-- Lord Howe Island moves its clocks by half an hour, on the first Sundays of April and October. -/
def lordHowe : Zone :=
  ⟨39600, yearly 2009 2099
    ⟨(nthSunday 1 · 4), -32400, 37800⟩
    ⟨(nthSunday 1 · 10), -30600, 39600⟩⟩

/-- Newfoundland changed its clocks one minute past midnight until the spring of 2011, and at two
o'clock from that autumn on. -/
def newfoundland : Zone :=
  ⟨-12600,
    yearly 2009 2010
      ⟨(nthSunday 2 · 3), 12660, -9000⟩
      ⟨(nthSunday 1 · 11), 9060, -12600⟩
    ++ yearly 2011 2011
      ⟨(nthSunday 2 · 3), 12660, -9000⟩
      ⟨(nthSunday 1 · 11), 16200, -12600⟩
    ++ yearly 2012 2099
      ⟨(nthSunday 2 · 3), 19800, -9000⟩
      ⟨(nthSunday 1 · 11), 16200, -12600⟩⟩

/-- Brasília time, with summer time until February 2019. -/
def brasilia : Zone :=
  ⟨-7200, [
    (1234663200, -10800), (1255834800, -7200), (1266717600, -10800), (1287284400, -7200),
    (1298167200, -10800), (1318734000, -7200), (1330221600, -10800), (1350788400, -7200),
    (1361066400, -10800), (1382238000, -7200), (1392516000, -10800), (1413687600, -7200),
    (1424570400, -10800), (1445137200, -7200), (1456020000, -10800), (1476586800, -7200),
    (1487469600, -10800), (1508036400, -7200), (1518919200, -10800), (1541300400, -7200),
    (1550368800, -10800)]⟩

/-- Samoa, which skipped 30 December 2011 to move across the date line. -/
def samoa : Zone :=
  ⟨-39600, [
    (1285498800, -36000), (1301752800, -39600), (1316872800, -36000), (1325239200, 50400),
    (1333202400, 46800), (1348927200, 50400), (1365256800, 46800), (1380376800, 50400),
    (1396706400, 46800), (1411826400, 50400), (1428156000, 46800), (1443276000, 50400),
    (1459605600, 46800), (1474725600, 50400), (1491055200, 46800), (1506175200, 50400),
    (1522504800, 46800), (1538229600, 50400), (1554559200, 46800), (1569679200, 50400),
    (1586008800, 46800), (1601128800, 50400), (1617458400, 46800)]⟩

end Scheduling.Zone
