namespace BucketStore.Text.Base64

def char (n : Nat) : Char :=
  if n < 26 then Char.ofNat (n + 'A'.toNat)
  else if n < 52 then Char.ofNat (n - 26 + 'a'.toNat)
  else if n < 62 then Char.ofNat (n - 52 + '0'.toNat)
  else if n = 62 then '+'
  else '/'

def value? (c : Char) : Option Nat :=
  if 'A' ≤ c ∧ c ≤ 'Z' then some (c.toNat - 'A'.toNat)
  else if 'a' ≤ c ∧ c ≤ 'z' then some (c.toNat - 'a'.toNat + 26)
  else if '0' ≤ c ∧ c ≤ '9' then some (c.toNat - '0'.toNat + 52)
  else if c = '+' then some 62
  else if c = '/' then some 63
  else none

/-- Three bytes make four characters. A last group of one or two bytes is filled up with zero
bits, and `=` stands for each character that holds none of its bits. -/
def encode : List UInt8 → List Char
  | [] => []
  | [a] => [char (a.toNat / 4), char (a.toNat % 4 * 16), '=', '=']
  | [a, b] => [char (a.toNat / 4), char (a.toNat % 4 * 16 + b.toNat / 16), char (b.toNat % 16 * 4), '=']
  | a :: b :: c :: rest =>
    char (a.toNat / 4) :: char (a.toNat % 4 * 16 + b.toNat / 16) ::
      char (b.toNat % 16 * 4 + c.toNat / 64) :: char (c.toNat % 64) :: encode rest

def decodeLast? (w x y z : Char) : Option (List UInt8) :=
  if z = '=' then
    match value? w, value? x with
    | some w, some x =>
      if y = '=' then
        if x % 16 = 0 then some [(w * 4 + x / 16).toUInt8] else none
      else
        match value? y with
        | some y =>
          if y % 4 = 0 then some [(w * 4 + x / 16).toUInt8, (x % 16 * 16 + y / 4).toUInt8] else none
        | none => none
    | _, _ => none
  else
    match value? w, value? x, value? y, value? z with
    | some w, some x, some y, some z =>
      some [(w * 4 + x / 16).toUInt8, (x % 16 * 16 + y / 4).toUInt8, (y % 4 * 64 + z).toUInt8]
    | _, _, _, _ => none

/-- Accepts written forms only: whole groups, fill characters in the last one alone, no blanks. -/
def decode? : List Char → Option (List UInt8)
  | [] => some []
  | [w, x, y, z] => decodeLast? w x y z
  | w :: x :: y :: z :: rest =>
    match value? w, value? x, value? y, value? z, decode? rest with
    | some w, some x, some y, some z, some bs =>
      some ((w * 4 + x / 16).toUInt8 :: (x % 16 * 16 + y / 4).toUInt8 :: (y % 4 * 64 + z).toUInt8 :: bs)
    | _, _, _, _, _ => none
  | _ => none

end BucketStore.Text.Base64
