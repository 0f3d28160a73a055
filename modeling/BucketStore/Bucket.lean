import BucketStore.Store
import BucketStore.StoreError
import BucketStore.Text.Quoted
import BucketStore.Upload

namespace BucketStore

open Text

/-- A bucket starts unset, and never returns to that once versioning was enabled or suspended. -/
inductive Versioning
  | unset
  | enabled
  | suspended
deriving DecidableEq

namespace Versioning

def text : Versioning → String
  | unset => "Unset"
  | enabled => "Enabled"
  | suspended => "Suspended"

def parse (status : String) : Except StoreError Versioning :=
  if status = "Unset" then .ok unset
  else if status = "Enabled" then .ok enabled
  else if status = "Suspended" then .ok suspended
  else .error (.invalidVersioning status)

end Versioning

structure Bucket where
  name : String
  versioning : Versioning := .unset
  store : ObjectStore := .empty
  sessions : Sessions := {}
deriving DecidableEq

namespace Bucket

def hasLiveObjects (b : Bucket) : Bool := !b.store.isEmpty

def setVersioning (b : Bucket) (target : Versioning) : Except StoreError Bucket :=
  if b.versioning = target then .ok b
  else if target = .unset then .error (.invalidVersioning target.text)
  else .ok { b with versioning := target, store := b.store.migrate }

def describe (b : Bucket) (created : String) : String :=
  "S3Bucket \x7b name: " ++ Text.quoted b.name ++ ", creation_date: " ++ created ++
    ", versioning: " ++ b.versioning.text ++ ", uploads: " ++
    String.ofList (Decimal.digits b.sessions.size) ++ ", .. \x7d"

def upload? (b : Bucket) (key uploadId : String) : Option Upload :=
  (b.sessions.find? uploadId).filter (fun u => u.key = key)

theorem upload?_eq_some_iff {b : Bucket} {key uploadId : String} {u : Upload} :
    b.upload? key uploadId = some u ↔ b.sessions.find? uploadId = some u ∧ u.key = key := by
  rw [upload?, Option.filter_eq_some_iff, decide_eq_true_eq]

end Bucket

end BucketStore
