import BucketStore.Text.Decimal

namespace BucketStore.VersionId

open Text

/-- The ID of a version written while versioning was suspended, or before it was first enabled. -/
def null : String := "null"

/-- Twenty digits hold every counter value, so IDs order as texts the way they order as numbers. -/
def ofCounter (n : UInt64) : String := String.ofList (Decimal.fixed 20 n.toNat)

def issue (first : UInt64) : Nat → List String
  | 0 => []
  | count + 1 => ofCounter first :: issue (first + 1) count

/-- Whether `id` was issued before `marker`. The null ID has no place in that order. -/
def olderThan (id marker : String) : Bool :=
  id ≠ null && id.utf8ByteSize = marker.utf8ByteSize && id < marker

end BucketStore.VersionId
