import BucketStore.Proofs.Store.Live

namespace BucketStore

def Head.unversioned (h : Head) : Head := { h with versionId := none }

def Object.unversioned (o : Object) : Object := { o with versionId := none }

namespace Listing

variable {α β : Type}

def Item.map (f : α → β) : Item α → Item β
  | .row key a => .row key (f a)
  | .commonPrefix cp => .commonPrefix cp

def Page.map (f : α → β) (p : Page α) : Page β := ⟨p.items.map (Item.map f), p.truncated⟩

theorem Item.mark_map (f : α → β) (i : Item α) : (i.map f).mark = i.mark := by
  cases i <;> rfl

theorem Page.nextMarker_map (f : α → β) (p : Page α) : (p.map f).nextMarker = p.nextMarker := by
  have hmark : Item.mark ∘ Item.map f = Item.mark := funext (Item.mark_map f)
  simp only [Page.nextMarker, Page.map, List.getLast?_map, Option.map_map, hmark]

theorem Page.map_append (f : α → β) (items : List (Item α)) (p : Page α) :
    (p.append items).map f = (p.map f).append (items.map (Item.map f)) := by
  simp only [Page.append, Page.map, List.map_append]

theorem walk_map (q : Query) (f : α → β) (keyed : List (String × List α)) (room : Nat) (seen : List String) :
    walk q (keyed.map (fun e => (e.1, e.2.map f))) room seen = (walk q keyed room seen).map f := by
  have hrows : ∀ key (l : List α), (l.map f).map (Item.row key) = (l.map (Item.row key)).map (Item.map f) := by
    intro key l
    simp [Function.comp_def, Item.map]
  induction keyed generalizing room seen with
  | nil => rfl
  | cons e rest ih =>
      obtain ⟨key, rows⟩ := e
      rw [List.map_cons, walk, walk]
      cases visit q seen key with
      | past => rfl
      | skip => exact ih room seen
      | commonPrefix cp =>
          by_cases hroom : room = 0
          · simp only [if_pos hroom]
            rfl
          · simp only [if_neg hroom, ih, Page.map_append]
            rfl
      | entry =>
          simp only [List.length_map, ← List.map_take, hrows]
          by_cases hroom : room < rows.length
          · simp only [if_pos hroom]
            rfl
          · simp only [if_neg hroom, ih, Page.map_append]

theorem currentPage_unversioned (q : Query) (current : List (String × Object)) :
    currentPage q (current.map (fun e => (e.1, e.2.unversioned))) =
      (currentPage q current).map Head.unversioned := by
  rw [currentPage, currentPage, page, page, ← walk_map]
  congr 1
  simp only [List.filter_map, List.map_map, Function.comp_def]
  rfl

end Listing

theorem History.current?_add (h : History) (v : Version) : (h.add v).current? = v.object? := by
  rw [History.add]
  split <;> rfl

namespace ObjectStore

variable {s : ObjectStore} {key : String}

theorem get?_add (s : ObjectStore) (v : Version) (key : String) :
    (s.add v).get? key = if key = v.key then v.object? else s.get? key := by
  cases s with
  | plain s =>
      cases v with
      | object o => exact Table.get?_insert s o.key key o
      | marker m => exact Table.get?_erase s m.key key
  | versioned s =>
      simp only [add, get?, VersionedStore.current?, VersionedStore.history_add]
      by_cases hkey : key = v.key
      · rw [if_pos hkey, if_pos hkey]
        exact History.current?_add _ _
      · rw [if_neg hkey, if_neg hkey]

/-- The store of a bucket that never had versioning and holds the same current objects. -/
def unversioned (s : ObjectStore) : ObjectStore :=
  plain ⟨s.current.map (fun e => (e.1, e.2.unversioned)), List.pairwise_map.mpr s.current_ascending⟩

theorem get?_unversioned (s : ObjectStore) (key : String) :
    s.unversioned.get? key = (s.get? key).map Object.unversioned := by
  apply Option.ext
  intro o
  rw [unversioned, get?, ← Option.mem_def, Option.mem_def, ← Table.mem_entries, List.mem_map,
    Option.map_eq_some_iff]
  constructor
  · rintro ⟨⟨k, p⟩, hp, heq⟩
    cases heq
    exact ⟨p, mem_current.mp hp, rfl⟩
  · rintro ⟨p, hp, rfl⟩
    exact ⟨(key, p), mem_current.mpr hp, rfl⟩

theorem unversioned_eq {t : PlainStore} (h : ∀ key, t.get? key = (s.get? key).map Object.unversioned) :
    s.unversioned = plain t := by
  rw [unversioned]
  congr 1
  apply Table.eq_of_get?
  intro key
  rw [h key]
  exact get?_unversioned s key

theorem unversioned_add_object (s : ObjectStore) (o : Object) :
    (s.add (.object o)).unversioned = s.unversioned.add (.object o.unversioned) := by
  apply unversioned_eq
  intro key
  rw [get?_add, Table.get?_insert, apply_ite (Option.map Object.unversioned), ← get?_unversioned]
  rfl

theorem unversioned_add_marker (s : ObjectStore) (m : DeleteMarker) :
    (s.add (.marker m)).unversioned = (s.unversioned.remove m.key).2 := by
  apply unversioned_eq
  intro key
  rw [get?_add, Table.get?_erase, apply_ite (Option.map Object.unversioned), ← get?_unversioned]
  rfl

theorem unversioned_remove (hs : s.isVersioned = false) (key : String) :
    (s.remove key).2.unversioned = (s.unversioned.remove key).2 := by
  cases s with
  | versioned s => cases hs
  | plain s =>
      apply unversioned_eq
      intro k
      rw [Table.get?_erase, remove, get?, Table.get?_erase, apply_ite (Option.map Object.unversioned)]
      congr 1
      exact get?_unversioned (plain s) k

theorem unversioned_migrate (s : ObjectStore) : s.migrate.unversioned = s.unversioned := by
  cases s with
  | versioned s => rfl
  | plain s =>
      apply unversioned_eq
      intro key
      rw [migrate, get?, VersionedStore.current?, VersionedStore.history, Table.get?_map]
      refine (get?_unversioned (plain s) key).trans ?_
      rw [get?]
      cases s.get? key <;> rfl

theorem isEmpty_unversioned (s : ObjectStore) : s.unversioned.isEmpty = s.isEmpty := by
  simp [isEmpty, size, unversioned, current]

theorem listObjects_unversioned (q : Listing.Query) (s : ObjectStore) :
    s.unversioned.listObjects q = (s.listObjects q).map Head.unversioned :=
  Listing.currentPage_unversioned q s.current

end ObjectStore

end BucketStore
