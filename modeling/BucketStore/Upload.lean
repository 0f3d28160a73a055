import BucketStore.Object

namespace BucketStore

structure Part where
  number : UInt32
  etag : String
  size : Nat
  body : List UInt8
deriving DecidableEq

def Part.ofBody (number : UInt32) (body : List UInt8) : Part :=
  ⟨number, EntityTag.ofBody body, body.length, body⟩

structure UploadSummary where
  id : String
  bucket : String
  key : String
  metadata : Metadata
deriving DecidableEq

structure Upload extends UploadSummary where
  parts : Table UInt32 Part := .empty
deriving DecidableEq

structure PartChoice where
  number : UInt32
  etag : String
deriving DecidableEq

structure PartPage where
  parts : List Part
  truncated : Bool
deriving DecidableEq

def PartPage.nextMarker (p : PartPage) : Option UInt32 :=
  if p.truncated then p.parts.getLast?.map (·.number) else none

namespace Upload

def put (u : Upload) (p : Part) : Upload := { u with parts := u.parts.insert p.number p }

def part? (u : Upload) (number : UInt32) : Option Part := u.parts.get? number

def partsCount (u : Upload) : Nat := u.parts.size

def totalSize (u : Upload) : Nat := u.parts.values.foldl (fun n p => n + p.size) 0

def listParts (u : Upload) (marker : Option UInt32) (cap : Nat) : PartPage :=
  let rest := u.parts.values.filter (fun p => marker.all (· < p.number))
  ⟨rest.take cap, cap < rest.length⟩

inductive ChoiceError
  | outOfOrder
  | notStored (number : UInt32)
deriving DecidableEq

/-- The stored parts that `choice` names. Numbers have to ascend strictly from above `previous`,
and each tag has to be that of the stored part; the first position at fault gives the error. -/
def choose (u : Upload) (previous : Option UInt32) : List PartChoice → Except ChoiceError (List Part)
  | [] => .ok []
  | c :: rest =>
    if previous.any (c.number ≤ ·) then .error .outOfOrder
    else
      match (u.part? c.number).filter (fun p => EntityTag.Same p.etag c.etag) with
      | none => .error (.notStored c.number)
      | some p => (u.choose (some c.number) rest).map (p :: ·)

def assemble (u : Upload) (parts : List Part) (versionId : Option String) : Object :=
  { Object.ofBody u.key versionId (parts.flatMap (·.body)) u.metadata with
    etag := EntityTag.composite (parts.map (·.etag))
    partsCount := some (min parts.length (UInt32.size - 1)) }

end Upload

/-- The uploads in progress of a bucket, in the order in which they were begun. -/
structure Sessions where
  uploads : List Upload := []
deriving DecidableEq

namespace Sessions

def find? (s : Sessions) (id : String) : Option Upload := s.uploads.find? (fun u => u.id = id)

def erase (s : Sessions) (id : String) : Sessions := ⟨s.uploads.filter (fun u => u.id ≠ id)⟩

def begin (s : Sessions) (u : Upload) : Sessions := ⟨(s.erase u.id).uploads ++ [u]⟩

def update (s : Sessions) (u : Upload) : Sessions :=
  ⟨s.uploads.map (fun w => if w.id = u.id then u else w)⟩

def size (s : Sessions) : Nat := s.uploads.length

/-- The uploads whose keys start with `stem`, by key, and within one key in the order in which they were begun. That
order stands for the time of initiation, which is not kept; that uploads initiated at one moment go by their IDs is
left out. -/
def listed (s : Sessions) (stem : String) : List Upload :=
  (s.uploads.filter (fun u => stem.toList <+: u.key.toList)).mergeSort (fun a b => a.key ≤ b.key)

end Sessions

end BucketStore
