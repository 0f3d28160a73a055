namespace BucketStore.Listing

def through? (delimiter : List Char) : List Char → Option (List Char)
  | [] => none
  | c :: cs =>
    if delimiter <+: c :: cs then some delimiter
    else (through? delimiter cs).map (c :: ·)

def after? (stem key : List Char) : Option (List Char) :=
  if stem <+: key then some (key.drop stem.length) else none

/-- The common prefix that a key under `stem` is reported by, if the delimiter occurs in its rest.
An empty delimiter rolls nothing up. -/
def rollUp? (stem delimiter : String) (rest : List Char) : Option String :=
  if delimiter = "" then none
  else (through? delimiter.toList rest).map (fun cut => stem ++ String.ofList cut)

end BucketStore.Listing
