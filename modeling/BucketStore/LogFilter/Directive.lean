import BucketStore.Pattern
import BucketStore.Text.Decimal
import BucketStore.Text.Utf8

namespace BucketStore.LogFilter

open Text

def levelNames : List String := ["off", "error", "warn", "info", "debug", "trace"]

def isLevel (cs : List Char) : Bool :=
  (Decimal.read? (Decimal.unsigned cs)).any (· ≤ 5) || levelNames.any (fun name => name.toList = cs.map Char.toLower)

def dropSign : List Char → List Char
  | '+' :: rest => rest
  | '-' :: rest => rest
  | cs => cs

def isExponent : List Char → Bool
  | [] => true
  | c :: rest => (c = 'e' || c = 'E') && (Decimal.read? (dropSign rest)).isSome

def isDecimal (cs : List Char) : Bool :=
  let whole := cs.takeWhile Char.isDigit
  match cs.dropWhile Char.isDigit with
  | '.' :: rest => (whole ≠ [] || rest.takeWhile Char.isDigit ≠ []) && isExponent (rest.dropWhile Char.isDigit)
  | rest => whole ≠ [] && isExponent rest

def isNumber (cs : List Char) : Bool :=
  let cs := dropSign cs
  isDecimal cs || ["inf", "infinity", "nan"].any (fun name => name.toList = cs.map Char.toLower)

/-- What can be wrong with a directive: its shape, the level that it gives, or the value that it
asks of a field. -/
inductive Fault
  | shape
  | level
  | value (fault : Pattern.Fault)
deriving DecidableEq

def Fault.message : Fault → String
  | .shape => "invalid filter directive"
  | .level =>
    "error parsing level filter: expected one of \"off\", \"error\", \"warn\", " ++
      "\"info\", \"debug\", \"trace\", or a number 0-5"
  | .value fault => "invalid field filter: " ++ fault.message

/-- A place in a directive. Blanks around the directive do not count in `text`, which says how it
goes on. Its parts are cut out of `written`, where they do count, at the same distance in bytes from
the start. -/
structure Place where
  text : List Char
  written : List Char

namespace Place

def drop (p : Place) (n : Nat) : Place :=
  ⟨p.text.drop n, Utf8.drop (Utf8.size (p.text.take n)) p.written⟩

def skipTo (p : Place) (stops : List Char) : Place :=
  p.drop (p.text.takeWhile (· ∉ stops)).length

def upTo (p : Place) (stops : List Char) : List Char :=
  Utf8.take (Utf8.size (p.text.takeWhile (· ∉ stops))) p.written

def levelFault? (p : Place) : Option Fault :=
  if p.written = [] || isLevel p.written then none else some .level

def endFault? (p : Place) : Option Fault :=
  match p.text.head? with
  | none => none
  | some '=' => (p.drop 1).levelFault?
  | some _ => some .shape

end Place

def fieldFault? (field : List Char) : Option Fault :=
  if field = [] then some .shape
  else match field.dropWhile (· ≠ '=') with
    | [] => none
    | _ :: rest =>
      let value := rest.takeWhile (· ≠ '=')
      if isNumber value then none else (Pattern.fault? value).map Fault.value

namespace Place

def bracedFault? (p : Place) : Option Fault :=
  let rest := p.skipTo ['\x7d']
  if rest.text = [] then some .shape
  else (fieldFault? (p.upTo ['\x7d'])).or
    (if (rest.drop 1).text.head? = some ']' then (rest.drop 2).endFault? else some .shape)

def spanFault? (p : Place) : Option Fault :=
  let rest := p.skipTo [']', '\x7b']
  if rest.text.head? = some ']' then (rest.drop 1).endFault? else (rest.drop 1).bracedFault?

end Place

def startsTarget (c : Char) : Bool := c = '-' || c = ':' || c = '_' || isAlphanumeric c

def Place.directiveFault? (p : Place) : Option Fault :=
  match p.text with
  | [] => some .shape
  | '[' :: _ => (p.drop 1).spanFault?
  | c :: _ =>
    if !startsTarget c then some .shape
    else
      let rest := p.skipTo ['=', '[']
      if rest.text.head? = some '[' then (rest.drop 1).spanFault? else rest.endFault?

def fault? (directive : List Char) : Option Fault := Place.directiveFault? ⟨trimBlank directive, directive⟩

end BucketStore.LogFilter
