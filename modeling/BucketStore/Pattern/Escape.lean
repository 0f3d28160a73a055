import BucketStore.Text.Blank
import BucketStore.Text.Hex

namespace BucketStore.Pattern

open Text

structure Flags where
  unicode : Bool := true
  ignoreCase : Bool := false
  spaced : Bool := false

def Flags.set (flags : Flags) (letters : List Char) : Flags :=
  let switch (letter : Char) (old : Bool) : Bool :=
    if letter ∈ letters.takeWhile (· ≠ '-') then true
    else if letter ∈ letters then false
    else old
  ⟨switch 'u' flags.unicode, switch 'i' flags.ignoreCase, switch 'x' flags.spaced⟩

/-- Drops blanks, and comments from a number sign to the end of its line. The first argument says
whether the text starts inside a comment. -/
def dropSpace : Bool → List Char → List Char
  | _, [] => []
  | true, c :: cs => dropSpace (c ≠ '\n') cs
  | false, c :: cs =>
    if c = '#' then dropSpace true cs
    else if isBlank c then dropSpace false cs
    else c :: cs

def Flags.skip (flags : Flags) (cs : List Char) : List Char :=
  if flags.spaced then dropSpace false cs else cs

/-- What matches at one place. A literal is a character, or a byte if it was written as two
hexadecimal digits, and a shorthand is one of the three lower-case classes of ASCII characters. -/
inductive Atom
  | literal (code : Nat) (byte : Bool)
  | shorthand
  | dot
  | edge
  | boundary

def readHex? (flags : Flags) : Nat → Nat → List Char → Option (Nat × List Char)
  | 0, value, cs => some (value, flags.skip cs)
  | n + 1, value, cs =>
    match flags.skip cs with
    | [] => none
    | c :: rest =>
      match Hex.digitValue? c with
      | none => none
      | some d => readHex? flags n (16 * value + d.toNat) rest

def readCode? (flags : Flags) (width : Nat) (cs : List Char) : Option (Atom × List Char) :=
  match readHex? flags width 0 cs with
  | none => none
  | some (code, rest) =>
    if code.isValidChar then some (.literal code (width = 2), rest) else none

def controlEscapes : List (Char × Nat) :=
  [('a', 0x07), ('t', 0x09), ('n', 0x0a), ('v', 0x0b), ('f', 0x0c), ('r', 0x0d)]

def readEscape? (flags : Flags) : List Char → Option (Atom × List Char)
  | [] => none
  | 'x' :: rest => readCode? flags 2 rest
  | 'u' :: rest => readCode? flags 4 rest
  | 'U' :: rest => readCode? flags 8 rest
  | c :: rest =>
    if c ∈ ['d', 's', 'w'] then if flags.unicode then none else some (.shorthand, rest)
    else if c ∈ ['A', 'z'] then some (.edge, rest)
    else if c ∈ ['b', 'B', '<', '>'] then some (.boundary, rest)
    else match controlEscapes.lookup c with
      | some code => some (.literal code false, rest)
      | none =>
        if c.toNat < 128 && !c.isAlphanum then some (.literal c.toNat false, rest) else none

end BucketStore.Pattern
