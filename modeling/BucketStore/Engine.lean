import BucketStore.Bucket
import BucketStore.ContinuationToken
import BucketStore.NamedPage
import BucketStore.Settings

namespace BucketStore

open Text

/-- The ID of a version written under this status, and the counter after it. Only enabled buckets
spend a counter value. -/
def Versioning.draw : Versioning → UInt64 → Option String × UInt64
  | unset, n => (none, n)
  | enabled, n => (some (VersionId.ofCounter n), n + 1)
  | suspended, n => (some VersionId.null, n)

structure Engine where
  settings : Settings := {}
  buckets : Table String Bucket := .empty
  nextVersion : UInt64
deriving DecidableEq

structure TokenPage extends Listing.Page Head where
  nextToken : Option String
deriving DecidableEq

def TokenPage.keyCount (p : TokenPage) : Nat := p.rows.length + p.commonPrefixes.length

structure BucketStats where
  name : String
  live : Bool
  size : Nat
  versioned : Bool
  versioning : Versioning
  uploads : Nat
deriving DecidableEq

namespace Engine

def bucket (e : Engine) (name : String) : Except StoreError Bucket :=
  match e.buckets.get? name with
  | some b => .ok b
  | none => .error (.noSuchBucket name)

def setBucket (e : Engine) (name : String) (b : Bucket) : Engine :=
  { e with buckets := e.buckets.insert name b }

/-- An upload is found by bucket, key and ID together, and whichever is wrong, it is the upload
that does not exist. -/
def session (e : Engine) (bucket key uploadId : String) : Except StoreError (Bucket × Upload) :=
  match e.buckets.get? bucket with
  | none => .error (.noSuchUpload uploadId)
  | some b =>
    match b.upload? key uploadId with
    | none => .error (.noSuchUpload uploadId)
    | some u => .ok (b, u)

def createBucket (e : Engine) (name : String) : Except StoreError Engine :=
  if e.buckets.contains name then .error (.bucketAlreadyOwned name)
  else .ok (e.setBucket name { name })

def deleteBucket (e : Engine) (name : String) : Except StoreError Engine := do
  let b ← e.bucket name
  if b.hasLiveObjects then .error (.bucketNotEmpty name)
  else .ok { e with buckets := e.buckets.erase name }

def listBuckets (e : Engine) : List String := e.buckets.values.map (·.name)

def listBucketsPage (e : Engine) (token : Option String) (cap : Option Nat) : NamedPage String :=
  NamedPage.cut id e.listBuckets token (cap.getD e.settings.maxBuckets)

/-- The status is read before the bucket is looked for. -/
def putVersioning (e : Engine) (name status : String) : Except StoreError Engine := do
  let target ← Versioning.parse status
  let b ← e.bucket name
  let b ← b.setVersioning target
  .ok (e.setBucket name b)

def write (e : Engine) (name : String) (b : Bucket) (build : Option String → Object) :
    Object × Engine :=
  let (id, next) := b.versioning.draw e.nextVersion
  let o := build id
  (o, { e.setBucket name { b with store := b.store.add (.object o) } with nextVersion := next })

def putObject (e : Engine) (name key : String) (body : List UInt8) (metadata : Metadata) :
    Except StoreError (Object × Engine) := do
  let b ← e.bucket name
  .ok (e.write name b (fun id => Object.ofBody key id body metadata))

def getObject (e : Engine) (name key : String) : Except StoreError Object := do
  let b ← e.bucket name
  match b.store.get? key with
  | some o => .ok o
  | none => .error (.noSuchKey name key)

/-- A delete marker has nothing to read, which is another failure than a missing version. -/
def getVersion (e : Engine) (name key id : String) : Except StoreError Object := do
  let b ← e.bucket name
  match b.store.getVersion? key id with
  | some o => .ok o
  | none =>
    if b.store.isMarker key id then .error (.methodNotAllowed key id)
    else .error (.noSuchVersion key id)

def deleteObject (e : Engine) (name key : String) : Except StoreError (Deletion × Engine) := do
  let b ← e.bucket name
  match b.versioning.draw e.nextVersion with
  | (none, _) =>
    .ok (.placeholder key, e.setBucket name { b with store := (b.store.remove key).2 })
  | (some id, next) =>
    .ok (⟨key, some id, true⟩,
      { e.setBucket name { b with store := b.store.add (.marker ⟨key, id⟩) } with nextVersion := next })

/-- Removes one version for good. There being none is no failure. -/
def deleteVersion (e : Engine) (name key id : String) : Except StoreError (Deletion × Engine) := do
  let b ← e.bucket name
  match b.store.dropVersion key id with
  | (none, _) => .ok (.placeholder key, e)
  | (some v, store) => .ok (⟨key, some id, v.isMarker⟩, e.setBucket name { b with store })

def listObjects (e : Engine) (name : String) (stem delimiter marker : Option String) (cap : Option Nat) :
    Except StoreError (Listing.Page Head) := do
  let b ← e.bucket name
  .ok (b.store.listObjects
    ⟨stem.getD "", delimiter.getD "", marker.getD "", cap.getD e.settings.maxKeys⟩)

/-- The token is read before the bucket is looked for, and goes before `startAfter`. -/
def listByToken (e : Engine) (name : String) (stem delimiter token startAfter : Option String)
    (cap : Option Nat) : Except StoreError TokenPage := do
  let marker ← match token with
    | some token => (ContinuationToken.decode token).map some
    | none => .ok startAfter
  let p ← e.listObjects name stem delimiter marker cap
  .ok ⟨p, p.nextMarker.map ContinuationToken.encode⟩

def listVersions (e : Engine) (name : String) (stem delimiter keyMarker versionIdMarker : Option String)
    (cap : Option Nat) : Except StoreError Listing.VersionPage := do
  let b ← e.bucket name
  .ok (b.store.listVersions
    ⟨⟨stem.getD "", delimiter.getD "", keyMarker.getD "", cap.getD e.settings.maxKeys⟩,
      versionIdMarker.getD ""⟩)

def createUpload (e : Engine) (name key uploadId : String) (metadata : Metadata) :
    Except StoreError (UploadSummary × Engine) := do
  let b ← e.bucket name
  let u : Upload := { id := uploadId, bucket := name, key, metadata }
  .ok (u.toUploadSummary, e.setBucket name { b with sessions := b.sessions.begin u })

def uploadPart (e : Engine) (name key uploadId : String) (number : UInt32) (body : List UInt8) :
    Except StoreError (Part × Engine) := do
  let (b, u) ← e.session name key uploadId
  let p := Part.ofBody number body
  .ok (p, e.setBucket name { b with sessions := b.sessions.update (u.put p) })

def completeUpload (e : Engine) (name key uploadId : String) (choice : List PartChoice) :
    Except StoreError (Object × Engine) := do
  let (b, u) ← e.session name key uploadId
  if choice = [] then .error (.invalidArgument "You must specify at least one part")
  else
    match u.choose none choice with
    | .error .outOfOrder => .error (.invalidPartOrder uploadId)
    | .error (.notStored number) => .error (.invalidPart uploadId number)
    | .ok parts =>
      .ok (e.write name { b with sessions := b.sessions.erase uploadId } (u.assemble parts))

def abortUpload (e : Engine) (name key uploadId : String) : Except StoreError Engine := do
  let (b, _) ← e.session name key uploadId
  .ok (e.setBucket name { b with sessions := b.sessions.erase uploadId })

def listParts (e : Engine) (name key uploadId : String) (marker : Option UInt32) (cap : Option Nat) :
    Except StoreError PartPage := do
  let (_, u) ← e.session name key uploadId
  .ok (u.listParts marker (cap.getD e.settings.maxParts))

def listUploads (e : Engine) (name : String) (stem token : Option String) (cap : Option Nat) :
    Except StoreError (NamedPage UploadSummary) := do
  let b ← e.bucket name
  let summaries := (b.sessions.listed (stem.getD "")).map Upload.toUploadSummary
  .ok (NamedPage.cut (·.id) summaries token (cap.getD e.settings.maxUploads))

/-- Drops all buckets. The counter goes on, so no version ID is ever given twice. -/
def reset (e : Engine) : Engine := { e with buckets := .empty }

def nextVersionId (e : Engine) : String × Engine :=
  (VersionId.ofCounter e.nextVersion, { e with nextVersion := e.nextVersion + 1 })

def stats (e : Engine) (name : String) : Except StoreError BucketStats := do
  let b ← e.bucket name
  .ok ⟨b.name, b.hasLiveObjects, b.store.size, b.store.isVersioned, b.versioning, b.sessions.size⟩

def describe (e : Engine) : String :=
  "S3ServiceState \x7b bucket_count: " ++ String.ofList (Decimal.digits e.buckets.size) ++ ", .. \x7d"

end Engine

end BucketStore
