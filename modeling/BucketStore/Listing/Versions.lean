import BucketStore.History
import BucketStore.Listing.Walk
import BucketStore.Table

namespace BucketStore.Listing

structure VersionRow where
  version : Version
  isLatest : Bool
deriving DecidableEq

/-- One page of versions, with the version that the next page resumes after inside its marker key.
A store without histories names none. -/
structure VersionPage extends Page VersionRow where
  nextVersionIdMarker : Option String
deriving DecidableEq

structure VersionQuery extends Query where
  versionIdMarker : String := ""
deriving DecidableEq

def VersionQuery.inside (q : VersionQuery) : Prop := q.marker ≠ "" ∧ q.versionIdMarker ≠ ""

instance (q : VersionQuery) : Decidable q.inside := inferInstanceAs (Decidable (_ ∧ _))

def VersionQuery.starts (q : VersionQuery) (key : String) : Prop :=
  if q.inside then q.marker ≤ key else q.toQuery.starts key

instance (q : VersionQuery) (key : String) : Decidable (q.starts key) :=
  inferInstanceAs (Decidable (if q.inside then q.marker ≤ key else q.toQuery.starts key))

def historyRows : History → List VersionRow
  | [] => []
  | v :: older => ⟨v, true⟩ :: older.map (⟨·, false⟩)

/-- What follows the version named `marker`. When it is gone, the rows from the first older version
on, or all of them for the null version, which has no place in the order of IDs. -/
def resumeAfter (marker : String) (rows : List VersionRow) : List VersionRow :=
  if rows.any (fun r => r.version.idOrNull = marker) then
    (rows.dropWhile (fun r => r.version.idOrNull ≠ marker)).drop 1
  else if marker = VersionId.null then rows
  else rows.dropWhile (fun r => !VersionId.olderThan r.version.idOrNull marker)

def VersionQuery.rowsOf (q : VersionQuery) (key : String) (h : History) : List VersionRow :=
  if q.inside ∧ key = q.marker then resumeAfter q.versionIdMarker (historyRows h) else historyRows h

def lastVersionId (p : Page VersionRow) : Option String :=
  if p.truncated then (p.items.getLast?.bind Item.value?).map (·.version.idOrNull) else none

def versionsPage (q : VersionQuery) (histories : Table String History) : VersionPage :=
  let keyed := (histories.entries.filter (fun e => q.starts e.1)).map (fun e => (e.1, q.rowsOf e.1 e.2))
  let p := page q.toQuery keyed
  ⟨p, lastVersionId p⟩

def currentPage (q : Query) (current : List (String × Object)) : Page Head :=
  page q ((current.filter (fun e => q.starts e.1)).map (fun e => (e.1, [e.2.toHead])))

end BucketStore.Listing
