import BucketStore.Engine

namespace BucketStore

/-- A call on the engine. Text that a listing leaves out counts as empty, and a cap as its default.
The ID of a new upload is part of the request that begins it. -/
inductive Request
  | createBucket (bucket : String)
  | deleteBucket (bucket : String)
  | bucketExists (bucket : String)
  | listBuckets
  | listBucketsPage (token : Option String) (cap : Option Nat)
  | putVersioning (bucket status : String)
  | getVersioning (bucket : String)
  | putObject (bucket key : String) (body : List UInt8) (metadata : Metadata)
  | getObject (bucket key : String)
  | getVersion (bucket key versionId : String)
  | headObject (bucket key : String)
  | headVersion (bucket key versionId : String)
  | deleteObject (bucket key : String)
  | deleteVersion (bucket key versionId : String)
  | listObjects (bucket : String) (stem delimiter marker : Option String) (cap : Option Nat)
  | listByToken (bucket : String) (stem delimiter token startAfter : Option String) (cap : Option Nat)
  | listVersions (bucket : String) (stem delimiter keyMarker versionIdMarker : Option String)
      (cap : Option Nat)
  | createUpload (bucket key uploadId : String) (metadata : Metadata)
  | uploadPart (bucket key uploadId : String) (number : UInt32) (body : List UInt8)
  | completeUpload (bucket key uploadId : String) (choice : List PartChoice)
  | abortUpload (bucket key uploadId : String)
  | listParts (bucket key uploadId : String) (marker : Option UInt32) (cap : Option Nat)
  | listUploads (bucket : String) (stem token : Option String) (cap : Option Nat)
  | reset
  | nextVersionId
  | stats (bucket : String)
  | describe
  | settings
deriving DecidableEq

inductive Reply
  | done
  | exists (answer : Bool)
  | buckets (names : List String)
  | bucketPage (page : NamedPage String)
  | versioning (status : Versioning)
  | object (o : Object)
  | head (h : Head)
  | deletion (d : Deletion)
  | objects (page : Listing.Page Head)
  | tokenPage (page : TokenPage)
  | versions (page : Listing.VersionPage)
  | upload (u : UploadSummary)
  | part (p : Part)
  | parts (page : PartPage)
  | uploads (page : NamedPage UploadSummary)
  | versionId (id : String)
  | stats (s : BucketStats)
  | description (text : String)
  | settings (s : Settings)
deriving DecidableEq

namespace Engine

/-- A request that reads leaves the engine as it is, and so does one that is refused. -/
def answer (e : Engine) : Request → Except StoreError (Reply × Engine)
  | .createBucket bucket => (e.createBucket bucket).map (fun e => (.done, e))
  | .deleteBucket bucket => (e.deleteBucket bucket).map (fun e => (.done, e))
  | .bucketExists bucket => .ok (.exists (e.buckets.contains bucket), e)
  | .listBuckets => .ok (.buckets e.listBuckets, e)
  | .listBucketsPage token cap => .ok (.bucketPage (e.listBucketsPage token cap), e)
  | .putVersioning bucket status => (e.putVersioning bucket status).map (fun e => (.done, e))
  | .getVersioning bucket => (e.bucket bucket).map (fun b => (.versioning b.versioning, e))
  | .putObject bucket key body metadata =>
    (e.putObject bucket key body metadata).map (fun (o, e) => (.object o, e))
  | .getObject bucket key => (e.getObject bucket key).map (fun o => (.object o, e))
  | .getVersion bucket key id => (e.getVersion bucket key id).map (fun o => (.object o, e))
  | .headObject bucket key => (e.getObject bucket key).map (fun o => (.head o.toHead, e))
  | .headVersion bucket key id => (e.getVersion bucket key id).map (fun o => (.head o.toHead, e))
  | .deleteObject bucket key => (e.deleteObject bucket key).map (fun (d, e) => (.deletion d, e))
  | .deleteVersion bucket key id =>
    (e.deleteVersion bucket key id).map (fun (d, e) => (.deletion d, e))
  | .listObjects bucket stem delimiter marker cap =>
    (e.listObjects bucket stem delimiter marker cap).map (fun p => (.objects p, e))
  | .listByToken bucket stem delimiter token startAfter cap =>
    (e.listByToken bucket stem delimiter token startAfter cap).map (fun p => (.tokenPage p, e))
  | .listVersions bucket stem delimiter keyMarker versionIdMarker cap =>
    (e.listVersions bucket stem delimiter keyMarker versionIdMarker cap).map (fun p => (.versions p, e))
  | .createUpload bucket key id metadata =>
    (e.createUpload bucket key id metadata).map (fun (u, e) => (.upload u, e))
  | .uploadPart bucket key id number body =>
    (e.uploadPart bucket key id number body).map (fun (p, e) => (.part p, e))
  | .completeUpload bucket key id choice =>
    (e.completeUpload bucket key id choice).map (fun (o, e) => (.object o, e))
  | .abortUpload bucket key id => (e.abortUpload bucket key id).map (fun e => (.done, e))
  | .listParts bucket key id marker cap =>
    (e.listParts bucket key id marker cap).map (fun p => (.parts p, e))
  | .listUploads bucket stem token cap =>
    (e.listUploads bucket stem token cap).map (fun p => (.uploads p, e))
  | .reset => .ok (.done, e.reset)
  | .nextVersionId => .ok (.versionId e.nextVersionId.1, e.nextVersionId.2)
  | .stats bucket => (e.stats bucket).map (fun s => (.stats s, e))
  | .describe => .ok (.description e.describe, e)
  | .settings => .ok (.settings e.settings, e)

def step (e : Engine) (r : Request) : Except StoreError Reply × Engine :=
  match e.answer r with
  | .ok (reply, e') => (.ok reply, e')
  | .error cause => (.error cause, e)

def run (e : Engine) : List Request → List (Except StoreError Reply) × Engine
  | [] => ([], e)
  | r :: rs =>
    let (outcome, e) := e.step r
    let (outcomes, e) := e.run rs
    (outcome :: outcomes, e)

end Engine

end BucketStore
