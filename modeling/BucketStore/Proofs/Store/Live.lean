import BucketStore.Proofs.Listing.Pages
import BucketStore.Proofs.Store.Histories

namespace BucketStore.ObjectStore

open Listing

variable {s : ObjectStore} {stem delimiter key cp : String} {o : Object} {h : Head}

theorem current_ascending (s : ObjectStore) : s.current.Pairwise (fun a b => a.1 < b.1) := by
  cases s with
  | plain s => exact s.ascending
  | versioned s =>
      refine List.Pairwise.filterMap _ (fun a b hab c hc d hd => ?_) s.ascending
      obtain ⟨_, _, rfl⟩ := Option.map_eq_some_iff.mp hc
      obtain ⟨_, _, rfl⟩ := Option.map_eq_some_iff.mp hd
      exact hab

theorem mem_current : (key, o) ∈ s.current ↔ s.get? key = some o := by
  cases s with
  | plain s => exact Table.mem_entries
  | versioned s =>
      simp only [current, VersionedStore.current, List.mem_filterMap, Option.map_eq_some_iff,
        Prod.mk.injEq, get?, VersionedStore.current?, VersionedStore.history]
      constructor
      · rintro ⟨⟨k, l⟩, hmem, p, hp, rfl, rfl⟩
        rw [Table.mem_entries.mp hmem]
        exact hp
      · intro hcurrent
        cases hget : Table.get? s key with
        | none => rw [hget] at hcurrent; cases hcurrent
        | some l =>
            rw [hget] at hcurrent
            exact ⟨(key, l), Table.mem_entries.mpr hget, o, hcurrent, rfl, rfl⟩

theorem get?_eq_newest (s : ObjectStore) (key : String) :
    s.get? key = (s.history key).head?.bind Version.object? := by
  cases s with
  | versioned s => rfl
  | plain s =>
      rw [get?, history]
      cases s.get? key <;> rfl

theorem mem_history_of_get? (h : s.get? key = some o) : .object o ∈ s.history key := by
  rw [get?_eq_newest, Option.bind_eq_some_iff] at h
  obtain ⟨v, hv, ho⟩ := h
  cases v with
  | object p => cases ho; exact List.mem_of_mem_head? hv
  | marker m => cases ho

def liveItems (stem delimiter : String) (s : ObjectStore) : List (Item Head) :=
  items stem delimiter (s.current.map (fun e => (e.1, [e.2.toHead])))

theorem listObjects_eq_cut (q : Query) (s : ObjectStore) :
    s.listObjects q = Page.cut q.cap ((s.liveItems q.stem q.delimiter).filter q.beyond) :=
  currentPage_eq_cut q s.current_ascending

theorem liveItems_ascending (stem delimiter : String) (s : ObjectStore) :
    (s.liveItems stem delimiter).Pairwise (fun i j => i.mark < j.mark) := by
  have hitems : (s.liveItems stem delimiter).Pairwise (Item.Precedes (fun _ _ _ => False)) :=
    items_pairwise (List.pairwise_map.mpr s.current_ascending) (fun e he => by
      obtain ⟨_, _, rfl⟩ := List.mem_map.mp he
      exact List.pairwise_singleton _ _)
  refine hitems.imp (fun {i j} hij => ?_)
  rcases hij with hlt | ⟨_, _, _, hfalse, _⟩
  · exact hlt
  · exact hfalse.elim

theorem mem_liveItems_row : .row key h ∈ s.liveItems stem delimiter ↔
    Under stem key ∧ rolledUp? stem delimiter key = none ∧ ∃ o, s.get? key = some o ∧ o.toHead = h := by
  rw [liveItems, mem_items_row]
  refine and_congr_right (fun _ => and_congr_right (fun _ => ?_))
  constructor
  · rintro ⟨rows, hmem, hrow⟩
    obtain ⟨⟨k, o⟩, ho, heq⟩ := List.mem_map.mp hmem
    cases heq
    exact ⟨o, mem_current.mp ho, (List.mem_singleton.mp hrow).symm⟩
  · rintro ⟨o, ho, rfl⟩
    exact ⟨_, List.mem_map.mpr ⟨(key, o), mem_current.mpr ho, rfl⟩, List.mem_singleton_self _⟩

theorem exists_liveItem_covers (hu : Under stem key) (ho : s.get? key = some o) :
    ∃ i ∈ s.liveItems stem delimiter, i.covers stem delimiter key = true :=
  exists_covers hu (List.mem_map.mpr ⟨(key, o), mem_current.mpr ho, rfl⟩) (List.cons_ne_nil _ _)

theorem mark_ne_empty (hs : s.history "" = []) {i : Item Head} (hi : i ∈ s.liveItems stem delimiter) :
    i.mark ≠ "" := by
  cases i with
  | row k a =>
      rintro rfl
      obtain ⟨_, _, o, ho, _⟩ := mem_liveItems_row.mp hi
      have hmem := mem_history_of_get? ho
      rw [hs] at hmem
      cases hmem
  | commonPrefix cp =>
      obtain ⟨e, _, hr⟩ := mem_items_commonPrefix.mp hi
      exact rolledUp?_ne_empty hr

section Left

variable {stem delimiter marker : Option String}

def liveAfter (stem delimiter marker : Option String) (s : ObjectStore) : List (Item Head) :=
  (s.liveItems (stem.getD "") (delimiter.getD "")).filter
    (fun i => marker.getD "" = "" ∨ marker.getD "" < i.mark)

theorem mem_liveAfter {i : Item Head} : i ∈ s.liveAfter stem delimiter marker ↔
    i ∈ s.liveItems (stem.getD "") (delimiter.getD "") ∧
      (marker.getD "" = "" ∨ marker.getD "" < i.mark) := by
  rw [liveAfter, List.mem_filter, decide_eq_true_eq]

theorem liveAfter_ascending :
    (s.liveAfter stem delimiter marker).Pairwise (fun i j => i.mark < j.mark) :=
  (liveItems_ascending _ _ s).filter _

theorem filter_liveAfter {i : Item Head} (hi : i ∈ s.liveAfter stem delimiter marker) (hne : i.mark ≠ "") :
    (s.liveAfter stem delimiter marker).filter (fun j => i.mark < j.mark) =
      s.liveAfter stem delimiter (some i.mark) := by
  have hpast := (mem_liveAfter.mp hi).2
  rw [liveAfter, List.filter_filter, liveAfter]
  apply List.filter_congr
  intro j _
  rw [← Bool.decide_and, decide_eq_decide, Option.getD_some]
  constructor
  · exact fun h => .inr h.1
  · intro h
    have hlt : i.mark < j.mark := h.resolve_left hne
    exact ⟨hlt, hpast.imp id (fun hm => hm.trans hlt)⟩

end Left

end BucketStore.ObjectStore
