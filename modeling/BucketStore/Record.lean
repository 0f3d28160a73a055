import BucketStore.Bucket
import BucketStore.Instant.Reader
import BucketStore.Instant.Writer
import BucketStore.Json.Reader
import BucketStore.Json.Writer
import BucketStore.Settings

namespace BucketStore

class Record (α : Type) where
  toJson : α → Json
  ofJson? : Json → Option α

structure HeadRecord extends Head where
  lastModified : Instant
deriving DecidableEq

structure MarkerRecord extends DeleteMarker where
  lastModified : Instant
deriving DecidableEq

structure UploadRecord extends UploadSummary where
  initiated : Instant
deriving DecidableEq

structure BucketRecord where
  name : String
  creationDate : Instant
deriving DecidableEq

namespace Record

def string (s : String) : Json := .text (some s)

def member (name : String) (v : Json) : List (Option String × Json) := [(some name, v)]

def optional (name : String) : Option Json → List (Option String × Json)
  | some v => member name v
  | none => []

def instant (i : Instant) : Json := string i.write

def valueOf? (members : List (Option String × Json)) (name : String) : Option (Option Json) :=
  match members.filter (fun m => m.1 = some name) with
  | [] => some none
  | [(_, v)] => some (some v)
  | _ => none

/-- The values of a record's fields in the order of their names, from an object by name, or from an
array by place, which may leave out the last `spare` of them. Other members of an object say
nothing, but their names have to be texts. -/
def fields? (names : List String) (spare : Nat) : Json → Option (List (Option Json))
  | .object members =>
    if members.all (fun m => m.1.isSome) then names.mapM (valueOf? members) else none
  | .array items =>
    if names.length - spare ≤ items.length ∧ items.length ≤ names.length then
      some (items.map some ++ List.replicate (names.length - items.length) none)
    else none
  | _ => none

def string? : Option Json → Option String
  | some (.text t) => t
  | _ => none

/-- A missing value and a null are both the absence of one. -/
def optional? {α : Type} (read : Option Json → Option α) : Option Json → Option (Option α)
  | none => some none
  | some .null => some none
  | v => (read v).map some

def naturalBelow? (bound : Nat) : Option Json → Option Nat
  | some (.natural n) => if n < bound then some n else none
  | _ => none

def bool? : Option Json → Option Bool
  | some (.bool b) => some b
  | _ => none

def instant? (v : Option Json) : Option Instant := (string? v).bind Instant.read?

def binding? (m : Option String × Json) : Option (String × String) :=
  match m with
  | (some key, .text (some value)) => some (key, value)
  | _ => none

def stringMap? : Option Json → Option (Table String String)
  | none => some .empty
  | some (.object members) => (members.mapM binding?).map Table.ofList
  | _ => none

instance : Record Metadata where
  toJson m := .object (
    optional "contentType" (m.contentType.map string) ++
    optional "contentEncoding" (m.contentEncoding.map string) ++
    optional "contentDisposition" (m.contentDisposition.map string) ++
    optional "contentLanguage" (m.contentLanguage.map string) ++
    optional "cacheControl" (m.cacheControl.map string) ++
    member "userMetadata" (.object (m.user.entries.map (fun e => (some e.1, string e.2)))))
  ofJson? j := do
    match ← fields? ["contentType", "contentEncoding", "contentDisposition", "contentLanguage",
        "cacheControl", "userMetadata"] 1 j with
    | [type, encoding, disposition, language, cache, user] =>
      some ⟨← optional? string? type, ← optional? string? encoding, ← optional? string? disposition,
        ← optional? string? language, ← optional? string? cache, ← stringMap? user⟩
    | _ => none

def metadata? : Option Json → Option Metadata
  | some v => ofJson? v
  | none => none

instance : Record HeadRecord where
  toJson h := .object (
    member "key" (string h.key) ++
    optional "versionId" (h.versionId.map string) ++
    member "etag" (string h.etag) ++
    member "size" (.natural h.size) ++
    member "lastModified" (instant h.lastModified) ++
    member "metadata" (toJson h.metadata) ++
    optional "partsCount" (h.partsCount.map .natural))
  ofJson? j := do
    match ← fields? ["key", "versionId", "etag", "size", "lastModified", "metadata", "partsCount"] 0 j with
    | [key, versionId, etag, size, lastModified, metadata, partsCount] =>
      some ⟨⟨← string? key, ← optional? string? versionId, ← string? etag,
        ← naturalBelow? UInt64.size size, ← metadata? metadata,
        ← optional? (naturalBelow? UInt32.size) partsCount⟩, ← instant? lastModified⟩
    | _ => none

instance : Record MarkerRecord where
  toJson m := .object (
    member "key" (string m.key) ++
    member "versionId" (string m.versionId) ++
    member "lastModified" (instant m.lastModified))
  ofJson? j := do
    match ← fields? ["key", "versionId", "lastModified"] 0 j with
    | [key, versionId, lastModified] =>
      some ⟨⟨← string? key, ← string? versionId⟩, ← instant? lastModified⟩
    | _ => none

instance : Record Deletion where
  toJson d := .object (
    member "key" (string d.key) ++
    optional "versionId" (d.versionId.map string) ++
    member "deleteMarker" (.bool d.deleteMarker))
  ofJson? j := do
    match ← fields? ["key", "versionId", "deleteMarker"] 0 j with
    | [key, versionId, deleteMarker] =>
      some ⟨← string? key, ← optional? string? versionId, ← bool? deleteMarker⟩
    | _ => none

instance : Record UploadRecord where
  toJson u := .object (
    member "uploadId" (string u.id) ++
    member "bucket" (string u.bucket) ++
    member "key" (string u.key) ++
    member "initiated" (instant u.initiated) ++
    member "metadata" (toJson u.metadata))
  ofJson? j := do
    match ← fields? ["uploadId", "bucket", "key", "initiated", "metadata"] 0 j with
    | [id, bucket, key, initiated, metadata] =>
      some ⟨⟨← string? id, ← string? bucket, ← string? key, ← metadata? metadata⟩, ← instant? initiated⟩
    | _ => none

instance : Record BucketRecord where
  toJson b := .object (member "name" (string b.name) ++ member "creationDate" (instant b.creationDate))
  ofJson? j := do
    match ← fields? ["name", "creationDate"] 0 j with
    | [name, creationDate] => some ⟨← string? name, ← instant? creationDate⟩
    | _ => none

/-- A status is its text, which may also stand as the name of a null. -/
instance : Record Versioning where
  toJson v := string v.text
  ofJson?
    | .text (some status) => (Versioning.parse status).toOption
    | .object [(some status, .null)] => (Versioning.parse status).toOption
    | _ => none

instance : Record PartChoice where
  toJson c := .object (member "partNumber" (.natural c.number.toNat) ++ member "etag" (string c.etag))
  ofJson? j := do
    match ← fields? ["partNumber", "etag"] 0 j with
    | [number, etag] => some ⟨(← naturalBelow? UInt32.size number).toUInt32, ← string? etag⟩
    | _ => none

instance : Record Settings where
  toJson s := .object (
    member "defaultMaxKeys" (.natural s.maxKeys) ++
    member "defaultMaxParts" (.natural s.maxParts) ++
    member "defaultMaxUploads" (.natural s.maxUploads) ++
    member "defaultMaxBuckets" (.natural s.maxBuckets) ++
    member "logLevel" (string s.logLevel))
  ofJson? j := do
    match ← fields? ["defaultMaxKeys", "defaultMaxParts", "defaultMaxUploads", "defaultMaxBuckets",
        "logLevel"] 0 j with
    | [keys, parts, uploads, buckets, logLevel] =>
      some ⟨← naturalBelow? UInt64.size keys, ← naturalBelow? UInt64.size parts,
        ← naturalBelow? UInt64.size uploads, ← naturalBelow? UInt64.size buckets, ← string? logLevel⟩
    | _ => none

def write {α : Type} [Record α] (a : α) : String := (toJson a).write

def read? (α : Type) [Record α] (text : String) : Option α := (Json.read? text).bind ofJson?

def canonical? (α : Type) [Record α] (text : String) : Option String := (read? α text).map write

end Record

end BucketStore
