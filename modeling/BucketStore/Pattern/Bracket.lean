import BucketStore.Pattern.Escape
import BucketStore.Pattern.Series

namespace BucketStore.Pattern

open Text

structure Bracket where
  items : Series := {}
  left : Option Nat := none
  opening : Bool := true

def Bracket.add (b : Bracket) (depth : Nat) : Bracket := ⟨b.items.add depth, b.left, false⟩

def Bracket.depth (b : Bracket) : Nat :=
  match b.left with
  | none => b.items.depth
  | some left => max left b.items.depth + 1

def Bracket.operate (b : Bracket) : Bracket := ⟨{}, some b.depth, false⟩

def Flags.member (flags : Flags) : Atom → Bool
  | .literal code _ => if flags.unicode then !flags.ignoreCase else code < 128
  | .shorthand => true
  | _ => false

def classNames : List String :=
  ["alnum", "alpha", "ascii", "blank", "cntrl", "digit", "graph", "lower", "print", "punct",
    "space", "upper", "word", "xdigit"]

def readClass? : List Char → Option (Bool × List Char)
  | ':' :: cs =>
    let name := if cs.head? = some '^' then cs.tail else cs
    let rest := name.dropWhile (· ≠ ':')
    if classNames.any (fun n => n.toList = name.takeWhile (· ≠ ':')) && rest.tail.head? = some ']'
    then some (cs.head? = some '^', rest.drop 2)
    else none
  | _ => none

def readMember? (flags : Flags) : List Char → Option (Atom × List Char)
  | [] => none
  | '\\' :: rest => readEscape? flags rest
  | c :: rest => some (.literal c.toNat false, rest)

/-- What comes after a hyphen decides whether it makes a range. Where blanks are free, one number
sign between them is passed over like a blank, and what follows it still counts. -/
def Flags.afterHyphen? (flags : Flags) (cs : List Char) : Option Char :=
  if flags.spaced then
    let cs := cs.dropWhile isBlank
    (if cs.head? = some '#' then cs.tail.dropWhile isBlank else cs).head?
  else cs.head?

def readRange? (flags : Flags) (cs : List Char) : Option (List Char) :=
  match readMember? flags cs with
  | none => none
  | some (first, rest) =>
    if !flags.member first then none
    else match flags.skip rest with
      | '-' :: rest =>
        if flags.afterHyphen? rest ∈ [some ']', some '-'] then some ('-' :: rest)
        else
          match first, readMember? flags (flags.skip rest) with
          | .literal low _, some (.literal high byte, rest) =>
            if low ≤ high && flags.member (.literal high byte) then some rest else none
          | _, _ => none
      | rest => some rest

def openBracket? (flags : Flags) (cs : List Char) : Option (List Char) :=
  match flags.skip cs with
  | '^' :: rest => if flags.unicode then some rest else none
  | rest => some rest

def readBracket? (flags : Flags) : Nat → Bracket → List Char → Option (Nat × List Char)
  | 0, _, _ => none
  | n + 1, b, cs =>
    match flags.skip cs with
    | [] => none
    | '[' :: rest =>
      match readClass? rest with
      | some (negated, rest) =>
        if flags.member (.literal (if negated then 128 else 0) false) then
          readBracket? flags n (b.add 0) rest
        else none
      | none =>
        match openBracket? flags rest with
        | none => none
        | some rest =>
          match readBracket? flags n {} rest with
          | none => none
          | some (depth, rest) => readBracket? flags n (b.add depth) rest
    | cs =>
      if b.opening && (cs.head? = some '-' || (cs.head? = some ']' && b.items.count = 0)) then
        if flags.member (.literal 0 false) then
          readBracket? flags n ⟨b.items.add 0, b.left, cs.head? = some '-'⟩ cs.tail
        else none
      else if cs.head? = some ']' then some (b.depth + 1, cs.tail)
      else if ['&', '-', '~'].any (fun c => cs.take 2 = [c, c]) then
        readBracket? flags n b.operate (cs.drop 2)
      else
        match readRange? flags cs with
        | none => none
        | some rest => readBracket? flags n (b.add 0) rest

end BucketStore.Pattern
