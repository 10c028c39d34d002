import Std.Data.ExtTreeMap
import RecordLinkage.Power

/-! Instants in universal time: a day of the proleptic Gregorian calendar, the second of the day and
the nanoseconds of the second. A leap second is the second before it with a thousand million
nanoseconds or more, so instants are ordered by their fields. -/

namespace RecordLinkage

def isLeapYear (year : Int) : Bool :=
  year % 4 = 0 && (year % 100 ≠ 0 || year % 400 = 0)

def daysInMonth (year : Int) (month : Nat) : Nat :=
  if month = 2 then (if isLeapYear year then 29 else 28)
  else if month = 4 ∨ month = 6 ∨ month = 9 ∨ month = 11 then 30
  else 31

namespace Date

def firstYear : Int := -262143

def lastYear : Int := 262142

end Date

structure Date where
  year : Int
  month : Nat
  day : Nat
  yearInRange : Date.firstYear ≤ year ∧ year ≤ Date.lastYear
  monthInRange : 1 ≤ month ∧ month ≤ 12
  dayInRange : 1 ≤ day ∧ day ≤ daysInMonth year month
deriving DecidableEq

namespace Date

instance : Ord Date :=
  ⟨compareLex (compareOn year) (compareLex (compareOn month) (compareOn day))⟩

instance : Std.TransOrd Date := inferInstanceAs
  (Std.TransCmp (compareLex (compareOn year) (compareLex (compareOn month) (compareOn day))))

instance : Std.LawfulEqOrd Date where
  eq_of_compare := by
    intro a b same
    obtain ⟨years, rest⟩ := compareLex_eq_eq.mp same
    obtain ⟨months, days⟩ := compareLex_eq_eq.mp rest
    cases a
    cases b
    simp only [compareOn, Std.LawfulEqOrd.compare_eq_iff_eq] at years months days
    subst years months days
    rfl

def of? (year : Int) (month day : Nat) : Option Date :=
  if years : firstYear ≤ year ∧ year ≤ lastYear then
    if months : 1 ≤ month ∧ month ≤ 12 then
      if days : 1 ≤ day ∧ day ≤ daysInMonth year month then
        some ⟨year, month, day, years, months, days⟩
      else none
    else none
  else none

def next? (date : Date) : Option Date :=
  (of? date.year date.month (date.day + 1)).or
    ((of? date.year (date.month + 1) 1).or (of? (date.year + 1) 1 1))

def previous? (date : Date) : Option Date :=
  if 1 < date.day then of? date.year date.month (date.day - 1)
  else if 1 < date.month then
    of? date.year (date.month - 1) (daysInMonth date.year (date.month - 1))
  else of? (date.year - 1) 12 31

/-- Days since the first of January 1970. Years are counted from March, so that a leap day is the
last day of its year. -/
def dayNumber (date : Date) : Int :=
  let year := if date.month ≤ 2 then date.year - 1 else date.year
  let month := (date.month + 9) % 12
  365 * year + year / 4 - year / 100 + year / 400 +
    ((153 * month + 2) / 5 + date.day - 1 : Int) - 719468

end Date

namespace Instant

/-- Nanoseconds of a second reach beyond it only in the last second of a minute. -/
def Fits (second nano : Nat) : Prop :=
  second < 86400 ∧ (nano < 10 ^ 9 ∨ nano < 2 * 10 ^ 9 ∧ second % 60 = 59)

instance (second nano : Nat) : Decidable (Fits second nano) :=
  inferInstanceAs (Decidable (_ ∧ _))

end Instant

structure Instant where
  date : Date
  second : Nat
  nano : Nat
  fits : Instant.Fits second nano
deriving DecidableEq

namespace Instant

instance : Ord Instant :=
  ⟨compareLex (compareOn date) (compareLex (compareOn second) (compareOn nano))⟩

instance : Std.TransOrd Instant := inferInstanceAs
  (Std.TransCmp (compareLex (compareOn date) (compareLex (compareOn second) (compareOn nano))))

instance : Std.LawfulEqOrd Instant where
  eq_of_compare := by
    intro a b same
    obtain ⟨dates, rest⟩ := compareLex_eq_eq.mp same
    obtain ⟨seconds, nanos⟩ := compareLex_eq_eq.mp rest
    cases a
    cases b
    simp only [compareOn, Std.LawfulEqOrd.compare_eq_iff_eq] at dates seconds nanos
    subst dates seconds nanos
    rfl

def after (a b : Instant) : Bool := compare a b = .gt

def of? (date : Date) (second nano : Nat) : Option Instant :=
  if fits : Fits second nano then some ⟨date, second, nano, fits⟩ else none

def micros (instant : Instant) : Int :=
  (instant.date.dayNumber * 86400 + instant.second) * 1000000 + (instant.nano / 1000 : Nat)

/-- The instant at which a clock `offset` seconds ahead of universal time shows the given day, second
of the day and nanosecond. -/
def ofLocal? (date : Date) (second nano : Nat) (offset : Int) : Option Instant :=
  let universal := (second : Int) - offset
  if universal < 0 then
    date.previous?.bind fun day => of? day (universal + 86400).toNat nano
  else if 86400 ≤ universal then
    date.next?.bind fun day => of? day (universal - 86400).toNat nano
  else of? date universal.toNat nano

end Instant

end RecordLinkage
