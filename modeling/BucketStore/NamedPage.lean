namespace BucketStore

structure NamedPage (α : Type) where
  items : List α
  next : Option String
deriving DecidableEq

namespace NamedPage

variable {α : Type}

def startIndex (name : α → String) (items : List α) : Option String → Nat
  | none => 0
  | some token => (items.findIdx? (fun a => name a = token)).getD 0

def cut (name : α → String) (items : List α) (token : Option String) (cap : Nat) : NamedPage α :=
  let rest := items.drop (startIndex name items token)
  ⟨rest.take cap, rest[cap]?.map name⟩

end NamedPage

end BucketStore
