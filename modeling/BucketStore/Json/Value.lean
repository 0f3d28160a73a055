namespace BucketStore

/-- What a JSON text says. Numbers other than digits alone are all one, and so are texts with a
surrogate that has no partner: the store never takes either for an answer. -/
inductive Json
  | null
  | bool (b : Bool)
  | natural (n : Nat)
  | otherNumber
  | text (t : Option String)
  | array (items : List Json)
  | object (members : List (Option String × Json))

end BucketStore
