namespace BucketStore.Pattern

structure Series where
  count : Nat := 0
  deepest : Nat := 0

def Series.add (s : Series) (depth : Nat) : Series := ⟨s.count + 1, max s.deepest depth⟩

def Series.depth (s : Series) : Nat := if s.count ≤ 1 then s.deepest else s.deepest + 1

end BucketStore.Pattern
