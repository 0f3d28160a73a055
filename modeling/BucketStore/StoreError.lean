import BucketStore.Text.Decimal

namespace BucketStore

open Text

inductive StoreError
  | noSuchBucket (bucket : String)
  | bucketAlreadyOwned (bucket : String)
  | bucketNotEmpty (bucket : String)
  | invalidVersioning (status : String)
  | noSuchKey (bucket key : String)
  | noSuchVersion (key versionId : String)
  | methodNotAllowed (key versionId : String)
  | noSuchUpload (uploadId : String)
  | invalidPart (uploadId : String) (number : UInt32)
  | invalidPartOrder (uploadId : String)
  | invalidArgument (reason : String)
deriving DecidableEq

namespace StoreError

def code : StoreError → String
  | noSuchBucket _ => "NoSuchBucket"
  | bucketAlreadyOwned _ => "BucketAlreadyOwnedByYou"
  | bucketNotEmpty _ => "BucketNotEmpty"
  | invalidVersioning _ => "IllegalVersioningConfigurationException"
  | noSuchKey _ _ => "NoSuchKey"
  | noSuchVersion _ _ => "NoSuchVersion"
  | methodNotAllowed _ _ => "MethodNotAllowed"
  | noSuchUpload _ => "NoSuchUpload"
  | invalidPart _ _ => "InvalidPart"
  | invalidPartOrder _ => "InvalidPartOrder"
  | invalidArgument _ => "InvalidArgument"

/-- The status of the response: 404 for what is absent, 405 for a delete marker that is read,
409 for a conflict with the bucket's state, and 400 for a request that is wrong in itself. -/
def status : StoreError → Nat
  | noSuchBucket _ | noSuchKey _ _ | noSuchVersion _ _ | noSuchUpload _ => 404
  | methodNotAllowed _ _ => 405
  | bucketAlreadyOwned _ | bucketNotEmpty _ => 409
  | invalidVersioning _ | invalidPart _ _ | invalidPartOrder _ | invalidArgument _ => 400

def message : StoreError → String
  | noSuchBucket bucket => "The specified bucket does not exist: " ++ bucket
  | bucketAlreadyOwned bucket =>
    "Your previous request to create the named bucket succeeded and you already own it: " ++ bucket
  | bucketNotEmpty bucket => "The bucket you tried to delete is not empty: " ++ bucket
  | invalidVersioning status => "The versioning status is not valid: " ++ status
  | noSuchKey bucket key => "The specified key does not exist: " ++ bucket ++ "/" ++ key
  | noSuchVersion key versionId =>
    "The specified version does not exist: key=" ++ key ++ ", version_id=" ++ versionId
  | methodNotAllowed key versionId =>
    "The specified method is not allowed against this resource: key=" ++ key ++
      ", version_id=" ++ versionId
  | noSuchUpload uploadId => "The specified upload does not exist: " ++ uploadId
  | invalidPart uploadId number =>
    "One or more of the specified parts could not be found: upload_id=" ++ uploadId ++
      ", part=" ++ String.ofList (Decimal.digits number.toNat)
  | invalidPartOrder uploadId =>
    "The list of parts was not in ascending order: upload_id=" ++ uploadId
  | invalidArgument reason => "Invalid argument: " ++ reason

end StoreError

end BucketStore
