import BucketStore.Listing.Versions

namespace BucketStore

abbrev PlainStore := Table String Object

abbrev VersionedStore := Table String History

namespace PlainStore

def put (s : PlainStore) (o : Object) : Option Object × PlainStore := (s.get? o.key, s.insert o.key o)

def remove (s : PlainStore) (key : String) : Option Object × PlainStore := (s.get? key, s.erase key)

def listObjects (s : PlainStore) (q : Listing.Query) : Listing.Page Head :=
  Listing.currentPage q s.entries

def listVersions (s : PlainStore) (q : Listing.Query) : Listing.VersionPage :=
  let keyed := (s.entries.filter (fun e => q.starts e.1)).map
    (fun e => (e.1, [Listing.VersionRow.mk (.object e.2) true]))
  ⟨Listing.page q keyed, none⟩

end PlainStore

namespace VersionedStore

def history (s : VersionedStore) (key : String) : History := (s.get? key).getD []

def add (s : VersionedStore) (v : Version) : VersionedStore :=
  s.insert v.key ((s.history v.key).add v)

def current? (s : VersionedStore) (key : String) : Option Object := (s.history key).current?

def find? (s : VersionedStore) (key id : String) : Option Version := (s.history key).find? id

def dropVersion (s : VersionedStore) (key id : String) : Option Version × VersionedStore :=
  match s.find? key id with
  | none => (none, s)
  | some v =>
    match (s.history key).remove id with
    | [] => (some v, s.erase key)
    | rest => (some v, s.insert key rest)

def current (s : VersionedStore) : List (String × Object) :=
  s.entries.filterMap (fun e => (History.current? e.2).map (fun o => (e.1, o)))

end VersionedStore

inductive ObjectStore
  | plain (objects : PlainStore)
  | versioned (histories : VersionedStore)
deriving DecidableEq

namespace ObjectStore

def empty : ObjectStore := plain .empty

/-- Files a version. A plain store keeps no delete markers: one removes the object of its key. -/
def add (v : Version) : ObjectStore → ObjectStore
  | plain s =>
    match v with
    | .object o => plain (s.insert o.key o)
    | .marker m => plain (s.erase m.key)
  | versioned s => versioned (s.add v)

def get? (key : String) : ObjectStore → Option Object
  | plain s => s.get? key
  | versioned s => s.current? key

/-- In a plain store an object answers to the null version ID and to no other. -/
def getVersion? (key id : String) : ObjectStore → Option Object
  | plain s => if id = VersionId.null then s.get? key else none
  | versioned s => (s.find? key id).bind Version.object?

def isMarker (key id : String) : ObjectStore → Bool
  | plain _ => false
  | versioned s => (s.find? key id).any Version.isMarker

/-- Removes the object of a key. A versioned store loses nothing this way. -/
def remove (key : String) : ObjectStore → Option Object × ObjectStore
  | plain s => (s.get? key, plain (s.erase key))
  | versioned s => (none, versioned s)

def dropVersion (key id : String) : ObjectStore → Option Version × ObjectStore
  | plain s =>
    if id = VersionId.null then ((s.get? key).map .object, plain (s.erase key)) else (none, plain s)
  | versioned s => ((s.dropVersion key id).1, versioned (s.dropVersion key id).2)

def current : ObjectStore → List (String × Object)
  | plain s => s.entries
  | versioned s => s.current

def size (s : ObjectStore) : Nat := s.current.length

def isEmpty (s : ObjectStore) : Bool := s.size = 0

def listObjects (q : Listing.Query) (s : ObjectStore) : Listing.Page Head :=
  Listing.currentPage q s.current

def listVersions (q : Listing.VersionQuery) : ObjectStore → Listing.VersionPage
  | plain s => s.listVersions q.toQuery
  | versioned s => Listing.versionsPage q s

def isVersioned : ObjectStore → Bool
  | plain _ => false
  | versioned _ => true

def toNullVersion (o : Object) : Version := .object { o with versionId := some VersionId.null }

/-- Turns a plain store into a versioned one, where each object is the null version of its key. -/
def migrate : ObjectStore → ObjectStore
  | plain s => versioned (s.map (fun o => [toNullVersion o]))
  | versioned s => versioned s

end ObjectStore

end BucketStore
