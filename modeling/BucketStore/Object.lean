import BucketStore.EntityTag
import BucketStore.Table
import BucketStore.VersionId

namespace BucketStore

structure Metadata where
  contentType : Option String := none
  contentEncoding : Option String := none
  contentDisposition : Option String := none
  contentLanguage : Option String := none
  cacheControl : Option String := none
  user : Table String String := .empty
deriving DecidableEq

def Metadata.ofContentType (contentType : String) : Metadata := { contentType := some contentType }

/-- All that is said of an object apart from its body. An object written before versioning was
first enabled has no version ID, and one written in one piece has no part count. -/
structure Head where
  key : String
  versionId : Option String
  etag : String
  size : Nat
  metadata : Metadata
  partsCount : Option Nat
deriving DecidableEq

structure Object extends Head where
  body : List UInt8
deriving DecidableEq

def Object.ofBody (key : String) (versionId : Option String) (body : List UInt8)
    (metadata : Metadata) : Object where
  key := key
  versionId := versionId
  etag := EntityTag.ofBody body
  size := body.length
  metadata := metadata
  partsCount := none
  body := body

structure DeleteMarker where
  key : String
  versionId : String
deriving DecidableEq

inductive Version
  | object (o : Object)
  | marker (m : DeleteMarker)
deriving DecidableEq

namespace Version

def key : Version → String
  | object o => o.key
  | marker m => m.key

def id? : Version → Option String
  | object o => o.versionId
  | marker m => some m.versionId

def idOrNull (v : Version) : String := v.id?.getD VersionId.null

def object? : Version → Option Object
  | object o => some o
  | marker _ => none

def marker? : Version → Option DeleteMarker
  | object _ => none
  | marker m => some m

def isMarker (v : Version) : Bool := v.marker?.isSome

end Version

structure Deletion where
  key : String
  versionId : Option String
  deleteMarker : Bool
deriving DecidableEq

def Deletion.placeholder (key : String) : Deletion := ⟨key, none, false⟩

end BucketStore
