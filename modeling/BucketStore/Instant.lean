namespace BucketStore

def isLeapYear (year : Int) : Bool := year % 4 = 0 && (year % 100 ≠ 0 || year % 400 = 0)

def daysIn (year : Int) (month : Nat) : Nat :=
  if month = 2 then if isLeapYear year then 29 else 28
  else if month = 4 ∨ month = 6 ∨ month = 9 ∨ month = 11 then 30
  else 31

def firstYear : Int := -262143

def lastYear : Int := 262142

structure Date where
  year : Int
  month : Nat
  day : Nat
  inCalendar : firstYear ≤ year ∧ year ≤ lastYear ∧ 1 ≤ month ∧ month ≤ 12 ∧ 1 ≤ day ∧
    day ≤ daysIn year month
deriving DecidableEq

namespace Date

def of? (year : Int) (month day : Nat) : Option Date :=
  if h : firstYear ≤ year ∧ year ≤ lastYear ∧ 1 ≤ month ∧ month ≤ 12 ∧ 1 ≤ day ∧
      day ≤ daysIn year month then
    some ⟨year, month, day, h⟩
  else none

def next? (d : Date) : Option Date :=
  if d.day < daysIn d.year d.month then of? d.year d.month (d.day + 1)
  else if d.month < 12 then of? d.year (d.month + 1) 1
  else of? (d.year + 1) 1 1

def previous? (d : Date) : Option Date :=
  if 1 < d.day then of? d.year d.month (d.day - 1)
  else if 1 < d.month then of? d.year (d.month - 1) (daysIn d.year (d.month - 1))
  else of? (d.year - 1) 12 31

end Date

/-- A moment in universal time. Any minute may have a sixty-first second, numbered 60. -/
structure Instant where
  date : Date
  minute : Nat
  second : Nat
  nano : Nat
  inDay : minute < 24 * 60 ∧ second ≤ 60 ∧ nano < 1000000000
deriving DecidableEq

namespace Instant

def of? (date : Date) (minute second nano : Nat) : Option Instant :=
  if h : minute < 24 * 60 ∧ second ≤ 60 ∧ nano < 1000000000 then some ⟨date, minute, second, nano, h⟩
  else none

def shift? (i : Instant) (offset : Int) : Option Instant :=
  let minute := i.minute - offset
  if minute < 0 then
    i.date.previous?.bind (fun d => of? d (minute + 24 * 60).toNat i.second i.nano)
  else if minute < 24 * 60 then of? i.date minute.toNat i.second i.nano
  else i.date.next?.bind (fun d => of? d (minute - 24 * 60).toNat i.second i.nano)

end Instant

end BucketStore
