import BucketStore.StoreError
import BucketStore.Text.Base64
import BucketStore.Text.Utf8

namespace BucketStore.ContinuationToken

open Text

def encode (marker : String) : String := String.ofList (Base64.encode (Utf8.encode marker))

def decode (token : String) : Except StoreError String :=
  match Base64.decode? token.toList with
  | none => .error (.invalidArgument "Invalid continuation token")
  | some bytes =>
    match Utf8.decode? bytes with
    | none => .error (.invalidArgument "Continuation token contains invalid UTF-8")
    | some marker => .ok marker

end BucketStore.ContinuationToken
