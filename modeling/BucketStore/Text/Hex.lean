namespace BucketStore.Text.Hex

def digit (n : UInt8) : Char := n.toNat.digitChar

def encode : List UInt8 → List Char
  | [] => []
  | b :: bs => digit (b / 16) :: digit (b % 16) :: encode bs

def digitValue? (c : Char) : Option UInt8 :=
  if '0' ≤ c ∧ c ≤ '9' then some (c.toNat - '0'.toNat).toUInt8
  else if 'a' ≤ c ∧ c ≤ 'f' then some (c.toNat - 'a'.toNat + 10).toUInt8
  else if 'A' ≤ c ∧ c ≤ 'F' then some (c.toNat - 'A'.toNat + 10).toUInt8
  else none

def decode? : List Char → Option (List UInt8)
  | [] => some []
  | [_] => none
  | h :: l :: rest =>
    match digitValue? h, digitValue? l, decode? rest with
    | some h, some l, some bs => some ((16 * h + l) :: bs)
    | _, _, _ => none

end BucketStore.Text.Hex
