import BucketStore.Json.Value
import BucketStore.Text.Decimal

namespace BucketStore.Json

open Text

def spanDigits (cs : List Char) : List Char × List Char :=
  (cs.takeWhile Char.isDigit, cs.dropWhile Char.isDigit)

def whole? (cs : List Char) : Option (Nat × List Char) :=
  match spanDigits cs with
  | ([], _) => none
  | ('0' :: _ :: _, _) => none
  | (ds, rest) => some (Decimal.value ds, rest)

def someDigits? (cs : List Char) : Option (List Char) :=
  match spanDigits cs with
  | ([], _) => none
  | (_, rest) => some rest

def fraction? : List Char → Option (Bool × List Char)
  | '.' :: rest => (someDigits? rest).map (fun rest => (true, rest))
  | cs => some (false, cs)

def exponent? : List Char → Option (Bool × List Char)
  | e :: rest =>
    if e = 'e' ∨ e = 'E' then
      let digits := match rest with
        | '+' :: rest => rest
        | '-' :: rest => rest
        | rest => rest
      (someDigits? digits).map (fun rest => (true, rest))
    else some (false, e :: rest)
  | [] => some (false, [])

/-- Reads a number. Digits alone are a natural number, and all others are told apart no further. -/
def readNumber? (cs : List Char) : Option (Json × List Char) := do
  let (negative, cs) := match cs with
    | '-' :: rest => (true, rest)
    | cs => (false, cs)
  let (n, cs) ← whole? cs
  let (fraction, cs) ← fraction? cs
  let (exponent, cs) ← exponent? cs
  some (if negative || fraction || exponent then .otherNumber else .natural n, cs)

end BucketStore.Json
