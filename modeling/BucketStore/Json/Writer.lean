import BucketStore.Json.Text
import BucketStore.Json.Value

namespace BucketStore.Json

open Text

mutual

def written : Json → List Char
  | null => ['n', 'u', 'l', 'l']
  | bool true => ['t', 'r', 'u', 'e']
  | bool false => ['f', 'a', 'l', 's', 'e']
  | natural n => Decimal.digits n
  | otherNumber => ['-', '0']
  | text t => writeText t
  | array [] => ['[', ']']
  | array (v :: l) => '[' :: written v ++ writtenItems l
  | object [] => ['\x7b', '\x7d']
  | object ((key, v) :: l) => '\x7b' :: writeText key ++ ':' :: written v ++ writtenMembers l

def writtenItems : List Json → List Char
  | [] => [']']
  | v :: l => ',' :: written v ++ writtenItems l

def writtenMembers : List (Option String × Json) → List Char
  | [] => ['\x7d']
  | (key, v) :: l => ',' :: writeText key ++ ':' :: written v ++ writtenMembers l

end

def write (v : Json) : String := String.ofList (written v)

end BucketStore.Json
