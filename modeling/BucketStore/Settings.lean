import BucketStore.Text.Blank
import BucketStore.Text.Decimal
import BucketStore.Text.Utf8

namespace BucketStore

open Text

structure Settings where
  maxKeys : Nat := 1000
  maxParts : Nat := 1000
  maxUploads : Nat := 1000
  maxBuckets : Nat := 1000
  logLevel : String := "info"
deriving DecidableEq

namespace Settings

abbrev Environment := String → Option (List UInt8)

def pageSize? (text : String) : Option Nat :=
  (Decimal.read? (Decimal.unsigned (trimBlank text.toList))).filter (fun n => 0 < n ∧ n < UInt64.size)

def text? (env : Environment) (name : String) : Option String := (env name).bind Utf8.decode?

def pageSizeOf (env : Environment) (name : String) : Nat :=
  ((text? env name).bind pageSize?).getD 1000

/-- Every value that cannot be used leaves its default in place. -/
def ofEnvironment (env : Environment) : Settings where
  maxKeys := pageSizeOf env "S3_DEFAULT_MAX_KEYS"
  maxParts := pageSizeOf env "S3_DEFAULT_MAX_PARTS"
  maxUploads := pageSizeOf env "S3_DEFAULT_MAX_UPLOADS"
  maxBuckets := pageSizeOf env "S3_DEFAULT_MAX_BUCKETS"
  logLevel := ((text? env "LOG_LEVEL").filter (· ≠ "")).getD "info"

end Settings

end BucketStore
