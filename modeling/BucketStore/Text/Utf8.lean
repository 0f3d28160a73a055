namespace BucketStore.Text.Utf8

def encode (s : String) : List UInt8 := s.toByteArray.data.toList

def decode? (bytes : List UInt8) : Option String := String.fromUTF8? ⟨bytes.toArray⟩

def size (cs : List Char) : Nat := cs.foldl (fun n c => n + c.utf8Size) 0

def drop : Nat → List Char → List Char
  | 0, cs => cs
  | _, [] => []
  | n + 1, c :: cs => drop (n + 1 - c.utf8Size) cs

def take : Nat → List Char → List Char
  | 0, _ => []
  | _, [] => []
  | n + 1, c :: cs => c :: take (n + 1 - c.utf8Size) cs

end BucketStore.Text.Utf8
