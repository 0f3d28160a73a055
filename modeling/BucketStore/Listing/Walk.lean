import BucketStore.Listing.Page
import BucketStore.Listing.RollUp

namespace BucketStore.Listing

structure Query where
  stem : String := ""
  delimiter : String := ""
  marker : String := ""
  cap : Nat
deriving DecidableEq

/-- Where a listing starts: past the marker, but not before the stem. -/
def Query.starts (q : Query) (key : String) : Prop :=
  if q.marker ≠ "" ∧ q.stem ≤ q.marker then q.marker < key else q.stem ≤ key

instance (q : Query) (key : String) : Decidable (q.starts key) :=
  inferInstanceAs (Decidable (if q.marker ≠ "" ∧ q.stem ≤ q.marker then q.marker < key else q.stem ≤ key))

inductive Visit
  | past
  | skip
  | commonPrefix (stem : String)
  | entry
deriving DecidableEq

/-- How a key takes part in a listing that has reported the common prefixes in `seen`. Keys under
the stem lie together, so a greater key that is not among them ends the listing. -/
def visit (q : Query) (seen : List String) (key : String) : Visit :=
  match after? q.stem.toList key.toList with
  | none => if q.stem < key then .past else .skip
  | some rest =>
    match rollUp? q.stem q.delimiter rest with
    | none => .entry
    | some stem => if stem ≤ q.marker ∨ stem ∈ seen then .skip else .commonPrefix stem

variable {α : Type}

/-- Passes over keys in their order, each with the rows that it would add. Every row and every
common prefix takes one slot out of `room`. -/
def walk (q : Query) : List (String × List α) → Nat → List String → Page α
  | [], _, _ => ⟨[], false⟩
  | (key, rows) :: rest, room, seen =>
    match visit q seen key with
    | .past => ⟨[], false⟩
    | .skip => walk q rest room seen
    | .commonPrefix stem =>
      if room = 0 then ⟨[], true⟩
      else (walk q rest (room - 1) (stem :: seen)).append [.commonPrefix stem]
    | .entry =>
      if room < rows.length then ⟨(rows.take room).map (.row key), true⟩
      else (walk q rest (room - rows.length) seen).append (rows.map (.row key))

def page (q : Query) (keyed : List (String × List α)) : Page α := walk q keyed q.cap []

end BucketStore.Listing
