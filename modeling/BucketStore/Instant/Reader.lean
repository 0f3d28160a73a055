import BucketStore.Instant
import BucketStore.Text.Blank
import BucketStore.Text.Decimal

namespace BucketStore.Instant

open Text

def dropBlank (cs : List Char) : List Char := cs.dropWhile Text.isBlank

def spanDigits : Nat → List Char → List Char × List Char
  | w + 1, c :: cs =>
    if c.isDigit then (c :: (spanDigits w cs).1, (spanDigits w cs).2) else ([], c :: cs)
  | _, cs => ([], cs)

def digits? (w : Nat) (cs : List Char) : Option (Nat × List Char) :=
  match spanDigits w cs with
  | ([], _) => none
  | (ds, rest) => some (Decimal.value ds, rest)

def field? (w : Nat) (cs : List Char) : Option (Nat × List Char) := digits? w (dropBlank cs)

def year? (cs : List Char) : Option (Int × List Char) :=
  match dropBlank cs with
  | '-' :: rest => (digits? rest.length rest).map (fun (n, rest) => (-(n : Int), rest))
  | '+' :: rest => (digits? rest.length rest).map (fun (n, rest) => ((n : Int), rest))
  | rest => (digits? 4 rest).map (fun (n, rest) => ((n : Int), rest))

def separator? (c : Char) (cs : List Char) : Option (List Char) :=
  match dropBlank cs with
  | d :: rest => if d = c then some rest else none
  | [] => none

def fraction? (cs : List Char) : Option (Nat × List Char) :=
  match cs with
  | '.' :: rest =>
    match spanDigits 9 rest with
    | ([], _) => none
    | (ds, rest) =>
      some (Decimal.value (ds ++ List.replicate (9 - ds.length) '0'), rest.dropWhile Char.isDigit)
  | cs => some (0, cs)

def isTimeMark (c : Char) : Bool := c = 'T' || c = 't' || c = ' '

def isMinus (c : Char) : Bool := c = '-' || c = '\u2212'

def twoDigits? : List Char → Option (Nat × List Char)
  | a :: b :: rest =>
    if a.isDigit && b.isDigit then some (Decimal.value [a, b], rest) else none
  | _ => none

def offset? (cs : List Char) : Option (Nat × List Char) := do
  let (hours, cs) ← twoDigits? cs
  let (minutes, cs) ← twoDigits? (cs.dropWhile (fun c => c = ':' || Text.isBlank c))
  if hours < 24 ∧ minutes < 60 then some (60 * hours + minutes, cs) else none

def zone? (cs : List Char) : Option (Int × List Char) :=
  match cs with
  | [] => none
  | c :: rest =>
    if (cs.take 3).map Char.toLower = ['u', 't', 'c'] then some (0, cs.drop 3)
    else if c = 'Z' ∨ c = 'z' then some (0, rest)
    else if c = '+' then (offset? rest).map (fun (n, rest) => ((n : Int), rest))
    else if isMinus c then (offset? rest).map (fun (n, rest) => (-(n : Int), rest))
    else none

def timeMark? : List Char → Option (List Char)
  | c :: rest => if isTimeMark c then some rest else none
  | [] => none

/-- Reads a date with a time of day and an offset, which the result no longer shows. -/
def read? (text : String) : Option Instant := do
  let (year, cs) ← year? text.toList
  let cs ← separator? '-' cs
  let (month, cs) ← field? 2 cs
  let cs ← separator? '-' cs
  let (day, cs) ← field? 2 cs
  let cs ← timeMark? cs
  let (hour, cs) ← field? 2 cs
  let cs ← separator? ':' cs
  let (minute, cs) ← field? 2 cs
  let cs ← separator? ':' cs
  let (second, cs) ← field? 2 cs
  let (nano, cs) ← fraction? cs
  let (offset, cs) ← zone? (dropBlank cs)
  let date ← Date.of? year month day
  if hour < 24 ∧ minute < 60 ∧ dropBlank cs = [] then
    (of? date (60 * hour + minute) second nano).bind (fun i => i.shift? offset)
  else none

end BucketStore.Instant
