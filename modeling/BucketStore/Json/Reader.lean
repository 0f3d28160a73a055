import BucketStore.Json.Number
import BucketStore.Json.Text

namespace BucketStore.Json

def isBlank (c : Char) : Bool := c = ' ' || c = '\t' || c = '\n' || c = '\r'

def dropBlank (cs : List Char) : List Char := cs.dropWhile isBlank

mutual

/-- Reads one value and leaves the rest. The first argument bounds the depth of the search. -/
def readValue? : Nat → List Char → Option (Json × List Char)
  | 0, _ => none
  | n + 1, cs =>
    match dropBlank cs with
    | 'n' :: 'u' :: 'l' :: 'l' :: rest => some (.null, rest)
    | 't' :: 'r' :: 'u' :: 'e' :: rest => some (.bool true, rest)
    | 'f' :: 'a' :: 'l' :: 's' :: 'e' :: rest => some (.bool false, rest)
    | '"' :: rest => (readText? rest).map (fun (t, rest) => (.text t, rest))
    | '[' :: rest =>
      match dropBlank rest with
      | ']' :: rest => some (.array [], rest)
      | rest => (readItems? n rest).map (fun (l, rest) => (.array l, rest))
    | '\x7b' :: rest =>
      match dropBlank rest with
      | '\x7d' :: rest => some (.object [], rest)
      | rest => (readMembers? n rest).map (fun (l, rest) => (.object l, rest))
    | rest => readNumber? rest

def readItems? : Nat → List Char → Option (List Json × List Char)
  | 0, _ => none
  | n + 1, cs =>
    match readValue? n cs with
    | none => none
    | some (v, rest) =>
      match dropBlank rest with
      | ']' :: rest => some ([v], rest)
      | ',' :: rest => (readItems? n rest).map (fun (l, rest) => (v :: l, rest))
      | _ => none

def readMembers? : Nat → List Char → Option (List (Option String × Json) × List Char)
  | 0, _ => none
  | n + 1, cs =>
    match dropBlank cs with
    | '"' :: rest =>
      match readText? rest with
      | none => none
      | some (key, rest) =>
        match dropBlank rest with
        | ':' :: rest =>
          match readValue? n rest with
          | none => none
          | some (v, rest) =>
            match dropBlank rest with
            | '\x7d' :: rest => some ([(key, v)], rest)
            | ',' :: rest => (readMembers? n rest).map (fun (l, rest) => ((key, v) :: l, rest))
            | _ => none
        | _ => none
    | _ => none

end

def read? (text : String) : Option Json :=
  match readValue? (2 * text.length + 2) text.toList with
  | some (v, rest) => if dropBlank rest = [] then some v else none
  | none => none

end BucketStore.Json
