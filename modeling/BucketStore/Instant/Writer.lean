import BucketStore.Instant
import BucketStore.Text.Decimal

namespace BucketStore.Instant

open Text

def writtenYear (year : Int) : List Char :=
  if 0 ≤ year ∧ year ≤ 9999 then Decimal.fixed 4 year.toNat
  else
    let sign := if year < 0 then '-' else '+'
    let n := year.natAbs
    sign :: if n ≤ 9999 then Decimal.fixed 4 n else Decimal.digits n

def writtenFraction (nano : Nat) : List Char :=
  if nano = 0 then []
  else if nano % 1000000 = 0 then '.' :: Decimal.fixed 3 (nano / 1000000)
  else if nano % 1000 = 0 then '.' :: Decimal.fixed 6 (nano / 1000)
  else '.' :: Decimal.fixed 9 nano

def written (i : Instant) : List Char :=
  writtenYear i.date.year ++ '-' :: Decimal.fixed 2 i.date.month ++ '-' :: Decimal.fixed 2 i.date.day ++
    'T' :: Decimal.fixed 2 (i.minute / 60) ++ ':' :: Decimal.fixed 2 (i.minute % 60) ++
    ':' :: Decimal.fixed 2 i.second ++ writtenFraction i.nano ++ ['Z']

def write (i : Instant) : String := String.ofList i.written

end BucketStore.Instant
