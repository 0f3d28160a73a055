import BucketStore.Md5
import BucketStore.Text.Blank
import BucketStore.Text.Decimal
import BucketStore.Text.Hex

namespace BucketStore.EntityTag

open Text

def hexDigest (body : List UInt8) : String := String.ofList (Hex.encode (Md5.digest body))

def ofBody (body : List UInt8) : String := "\"" ++ hexDigest body ++ "\""

def digest? (tag : String) : Option (List UInt8) :=
  Hex.decode? (Text.trim (· == '"') tag.toList)

/-- The tag of a body that was assembled from parts: the digest of their digests and their number.
A tag that holds no digest counts as a part and adds no bytes. -/
def composite (tags : List String) : String :=
  "\"" ++ hexDigest ((tags.filterMap digest?).flatten) ++ "-" ++
    String.ofList (Decimal.digits tags.length) ++ "\""

/-- The tag without its surrounding quotes. A tag that lacks either of them is left alone. -/
def unquote (tag : String) : String :=
  match tag.toList with
  | '"' :: rest => if rest.getLast? = some '"' then String.ofList rest.dropLast else tag
  | _ => tag

def Same (tag other : String) : Prop := unquote tag = unquote other

instance (tag other : String) : Decidable (Same tag other) := decEq (unquote tag) (unquote other)

def ifMatch (tag condition : String) : Bool := condition = "*" || decide (Same tag condition)

def ifNoneMatch (tag condition : String) : Bool := condition ≠ "*" && !decide (Same tag condition)

end BucketStore.EntityTag
