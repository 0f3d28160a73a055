import BucketStore.Object

namespace BucketStore

abbrev History := List Version

namespace History

def isNull (v : Version) : Bool := v.id? = some VersionId.null

/-- A null version takes the place of the null version that the history holds. -/
def add (v : Version) (h : History) : History :=
  if isNull v then v :: h.filter (fun w => !isNull w) else v :: h

def current? (h : History) : Option Object := h.head?.bind Version.object?

def find? (h : History) (id : String) : Option Version := List.find? (fun v => v.id? = some id) h

def remove (h : History) (id : String) : History := h.eraseP (fun v => v.id? = some id)

end History

end BucketStore
