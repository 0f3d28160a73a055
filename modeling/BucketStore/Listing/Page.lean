namespace BucketStore.Listing

inductive Item (α : Type)
  | row (key : String) (value : α)
  | commonPrefix (stem : String)
deriving DecidableEq

namespace Item

variable {α : Type}

def mark : Item α → String
  | row key _ => key
  | commonPrefix stem => stem

def value? : Item α → Option α
  | row _ a => some a
  | commonPrefix _ => none

def commonPrefix? : Item α → Option String
  | row _ _ => none
  | commonPrefix stem => some stem

end Item

structure Page (α : Type) where
  items : List (Item α)
  truncated : Bool
deriving DecidableEq

namespace Page

variable {α : Type}

def rows (p : Page α) : List α := p.items.filterMap Item.value?

def commonPrefixes (p : Page α) : List String := p.items.filterMap Item.commonPrefix?

/-- A full page hands out its last item. A page without items has none to hand out. -/
def nextMarker (p : Page α) : Option String :=
  if p.truncated then p.items.getLast?.map Item.mark else none

def append (items : List (Item α)) (p : Page α) : Page α := ⟨items ++ p.items, p.truncated⟩

end Page

end BucketStore.Listing
