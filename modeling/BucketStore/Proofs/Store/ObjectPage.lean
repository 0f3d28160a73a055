import BucketStore.Proofs.Listing.FirstOccurrence
import BucketStore.Proofs.Listing.Resume
import BucketStore.Proofs.Store.Live
import Mathlib.Data.List.Dedup
import Mathlib.Data.List.Sort

namespace BucketStore

namespace Listing

/-- What stands for a live key in a listing: its common prefix where the delimiter occurs behind the stem,
and the key itself with the head of its object where not. -/
def Shows (stem delimiter : String) (e : String × Object) : Item Head → Prop
  | .commonPrefix cp => RollsUp stem delimiter e.1 cp
  | .row key head => (∀ cp, ¬ RollsUp stem delimiter e.1 cp) ∧ key = e.1 ∧ head = e.2.toHead

/-- `p` is the page of the first `cap` of `items`, in the two lists that a client is given. -/
structure ExactPage (cap : Nat) (items : List (Item Head)) (p : Page Head) : Prop where
  split : Splits (items.take cap) p.rows p.commonPrefixes
  rows_ascending : (p.rows.map Head.key).Pairwise (· < ·)
  commonPrefixes_ascending : p.commonPrefixes.Pairwise (· < ·)
  truncated : p.truncated = true ↔ cap < items.length
  nextMarker : p.nextMarker = if cap < items.length ∧ 0 < cap then items[cap - 1]?.map Item.mark else none

theorem Page.nextMarker_cut {α : Type} (cap : Nat) (items : List (Item α)) : (Page.cut cap items).nextMarker =
    if cap < items.length ∧ 0 < cap then items[cap - 1]?.map Item.mark else none := by
  cases htruncated : (Page.cut cap items).truncated with
  | false =>
      have hle : items.length ≤ cap := not_lt.mp (of_decide_eq_false htruncated)
      rw [Page.nextMarker, htruncated, if_neg Bool.false_ne_true, if_neg (fun h => not_lt_of_ge hle h.1)]
  | true =>
      have hlt : cap < items.length := of_decide_eq_true htruncated
      rcases Nat.eq_zero_or_pos cap with rfl | hcap
      · rw [if_neg (fun h => lt_irrefl 0 h.2)]
        exact ite_self none
      · obtain ⟨front, x, back, hitems, _, hmarker, rfl⟩ := Page.cut_truncated hcap htruncated
        rw [hmarker, if_pos ⟨hlt, hcap⟩, hitems]
        simp

end Listing

namespace ObjectStore

open Listing

variable {s : ObjectStore} {stem delimiter key : String} {o : Object} {i : Item Head}

/-- The stores that come out of operations on an empty one. -/
inductive Reachable : ObjectStore → Prop
  | empty : Reachable .empty
  | add (v : Version) {s : ObjectStore} (hs : Reachable s) : Reachable (s.add v)
  | remove (key : String) {s : ObjectStore} (hs : Reachable s) : Reachable (s.remove key).2
  | dropVersion (key id : String) {s : ObjectStore} (hs : Reachable s) : Reachable (s.dropVersion key id).2
  | migrate {s : ObjectStore} (hs : Reachable s) : Reachable s.migrate

theorem Reachable.filed (hs : s.Reachable) : ∀ key, ∀ v ∈ s.history key, v.key = key := by
  induction hs with
  | empty => exact fun key v hv => nomatch hv
  | add v _ ih =>
      intro key w hw
      rcases mem_history_add hw with ⟨rfl, rfl⟩ | hw
      · rfl
      · exact ih key w hw
  | @remove other s _ ih => exact fun key w hw => ih key w ((history_remove_sublist s other key).subset hw)
  | @dropVersion other id s _ ih =>
      exact fun key w hw => ih key w ((history_dropVersion_sublist s other id key).subset hw)
  | migrate _ ih =>
      intro key w hw
      rcases mem_history_migrate hw with hw | ⟨o, ho, rfl⟩
      · exact ih key w hw
      · exact ih key (.object o) ho

/-- The live keys under `stem` with their objects, in the order of the keys. -/
def liveUnder (stem : String) (s : ObjectStore) : List (String × Object) := s.current.filter (fun e => Under stem e.1)

theorem mem_liveUnder : (key, o) ∈ s.liveUnder stem ↔
    Under stem key ∧ (s.history key).head? = some (.object o) := by
  have hnewest : s.get? key = some o ↔ (s.history key).head? = some (.object o) := by
    rw [get?_eq_newest, Option.bind_eq_some_iff]
    constructor
    · rintro ⟨v, hv, ho⟩
      cases v with
      | object p => cases ho; exact hv
      | marker m => cases ho
    · exact fun h => ⟨_, h, rfl⟩
  rw [liveUnder, List.mem_filter, mem_current, decide_eq_true_eq, hnewest, and_comm]

def shown (stem delimiter : String) (e : String × Object) : Item Head :=
  match rolledUp? stem delimiter e.1 with
  | some cp => .commonPrefix cp
  | none => .row e.1 e.2.toHead

theorem shows_shown (e : String × Object) : Shows stem delimiter e (shown stem delimiter e) := by
  rw [shown]
  split
  · rename_i cp hcp
    exact rollsUp_iff.mpr hcp
  · rename_i hnone
    refine ⟨fun cp hcp => ?_, rfl, rfl⟩
    rw [rollsUp_iff.mp hcp] at hnone
    cases hnone

theorem mark_shown (e : String × Object) : (shown stem delimiter e).mark = markOf stem delimiter e.1 := by
  rw [shown, markOf]
  cases rolledUp? stem delimiter e.1 <;> rfl

theorem shown_ascending (stem delimiter : String) (s : ObjectStore) :
    ((s.liveUnder stem).map (shown stem delimiter)).Pairwise (fun i j => i ≠ j → i.mark < j.mark) := by
  rw [List.pairwise_map]
  refine (s.current_ascending.filter _).imp (fun {a b} hab hne => ?_)
  rw [mark_shown, mark_shown]
  refine (markOf_mono hab.le).lt_of_ne (fun hmark => hne ?_)
  obtain ⟨cp, ha, hb⟩ := rolledUp?_of_markOf_eq hab.ne hmark
  rw [shown, shown, ha, hb]

theorem mem_shown_iff :
    i ∈ (s.liveUnder stem).map (shown stem delimiter) ↔ i ∈ s.liveItems stem delimiter := by
  rw [List.mem_map]
  cases i with
  | row key head =>
      rw [mem_liveItems_row]
      constructor
      · rintro ⟨⟨k, o⟩, hmem, hshown⟩
        obtain ⟨hcurrent, hu⟩ := List.mem_filter.mp hmem
        rw [shown] at hshown
        split at hshown
        · cases hshown
        · rename_i hr
          cases hshown
          exact ⟨of_decide_eq_true hu, hr, o, mem_current.mp hcurrent, rfl⟩
      · rintro ⟨hu, hr, o, ho, rfl⟩
        refine ⟨(key, o), List.mem_filter.mpr ⟨mem_current.mpr ho, decide_eq_true hu⟩, ?_⟩
        simp only [shown, hr]
  | commonPrefix cp =>
      rw [liveItems, mem_items_commonPrefix]
      constructor
      · rintro ⟨e, hmem, hshown⟩
        rw [shown] at hshown
        split at hshown
        · rename_i hr
          cases hshown
          exact ⟨_, List.mem_map_of_mem (List.mem_of_mem_filter hmem), hr⟩
        · cases hshown
      · rintro ⟨_, he, hr⟩
        obtain ⟨e, hcurrent, rfl⟩ := List.mem_map.mp he
        refine ⟨e, List.mem_filter.mpr ⟨hcurrent, decide_eq_true (under_of_rolledUp? hr)⟩, ?_⟩
        simp only [shown, hr]

theorem liveItems_eq_dedup (stem delimiter : String) (s : ObjectStore) :
    s.liveItems stem delimiter = ((s.liveUnder stem).map (shown stem delimiter)).dedup := by
  have hdedup : ((s.liveUnder stem).map (shown stem delimiter)).dedup.Pairwise (fun i j => i.mark < j.mark) :=
    ((shown_ascending stem delimiter s).sublist (List.dedup_sublist _)).imp₂ (fun _ _ h hne => h hne)
      (List.nodup_dedup _)
  refine eq_of_mem_iff_of_asymm (fun _ _ => lt_asymm) (liveItems_ascending stem delimiter s) hdedup (fun i => ?_)
  rw [List.mem_dedup, mem_shown_iff]

theorem rows_ascending (hfiled : ∀ key, ∀ v ∈ s.history key, v.key = key) {l : List (Item Head)}
    (hl : l.Sublist (s.liveItems stem delimiter)) : ((l.filterMap Item.value?).map Head.key).Pairwise (· < ·) := by
  have hkey : ∀ i ∈ l, ∀ head, i.value? = some head → head.key = i.mark := by
    intro i hi head hhead
    cases i with
    | commonPrefix cp => cases hhead
    | row key a =>
        cases hhead
        obtain ⟨_, _, o, ho, rfl⟩ := mem_liveItems_row.mp (hl.subset hi)
        exact hfiled key _ (mem_history_of_get? ho)
  rw [List.map_filterMap, List.pairwise_filterMap]
  refine ((liveItems_ascending stem delimiter s).sublist hl).imp_of_mem (fun {i j} hi hj hij k hk k' hk' => ?_)
  obtain ⟨head, hhead, rfl⟩ := Option.map_eq_some_iff.mp hk
  obtain ⟨head', hhead', rfl⟩ := Option.map_eq_some_iff.mp hk'
  rwa [hkey i hi head hhead, hkey j hj head' hhead']

/-- One page of current objects, whatever the keys and the arguments: the live keys under the stem are
shown one by one, repeats are dropped, and the page takes the first of what lies past the marker. -/
theorem Reachable.listObjects_exact (hs : s.Reachable) (q : Query) : ∃ live shown,
    live.Pairwise (fun a b => a.1 < b.1) ∧
    (∀ key o, (key, o) ∈ live ↔ Under q.stem key ∧ (s.history key).head? = some (.object o)) ∧
    List.Forall₂ (Shows q.stem q.delimiter) live shown ∧
    ExactPage q.cap (shown.dedup.filter q.beyond) (s.listObjects q) := by
  refine ⟨s.liveUnder q.stem, (s.liveUnder q.stem).map (shown q.stem q.delimiter), s.current_ascending.filter _,
    fun key o => mem_liveUnder, ?_, ?_⟩
  · rw [List.forall₂_map_right_iff, List.forall₂_same]
    exact fun e _ => shows_shown e
  · rw [← liveItems_eq_dedup, listObjects_eq_cut]
    have hsub : (((s.liveItems q.stem q.delimiter).filter q.beyond).take q.cap).Sublist
        (s.liveItems q.stem q.delimiter) := (List.take_sublist _ _).trans List.filter_sublist
    have hprecedes : (((s.liveItems q.stem q.delimiter).filter q.beyond).take q.cap).Pairwise
        (Item.Precedes (fun _ _ _ => False)) :=
      ((liveItems_ascending q.stem q.delimiter s).sublist hsub).imp .inl
    exact
      { split := (Page.splits_iff (p := Page.cut _ _)).mpr ⟨rfl, rfl⟩
        rows_ascending := rows_ascending hs.filed hsub
        commonPrefixes_ascending := commonPrefix?_ascending hprecedes
        truncated := decide_eq_true_iff
        nextMarker := Page.nextMarker_cut _ _ }

def shelves : ObjectStore :=
  let shelved key id := Version.object (Object.ofBody key id [1] {})
  ((((empty.add (shelved "a/1" none)).add (shelved "a/2" none)).migrate.add
    (shelved "b" (some (VersionId.ofCounter 0)))).add (.marker ⟨"b", VersionId.ofCounter 1⟩)).add
      (shelved "c" (some (VersionId.ofCounter 2)))

theorem shelves_page : shelves.Reachable ∧
    (shelves.listObjects ⟨"", "/", "", 1⟩).nextMarker = some "a/" ∧ ∃ live shown,
      live.Pairwise (fun a b => a.1 < b.1) ∧
      (∀ key o, (key, o) ∈ live ↔ Under "" key ∧ (shelves.history key).head? = some (.object o)) ∧
      List.Forall₂ (Shows "" "/") live shown ∧
      ExactPage 1 (shown.dedup.filter (Query.mk "" "/" "" 1).beyond) (shelves.listObjects ⟨"", "/", "", 1⟩) := by
  have hreachable : shelves.Reachable := by
    unfold shelves
    exact .add _ (.add _ (.add _ (.migrate (.add _ (.add _ .empty)))))
  exact ⟨hreachable, by decide, hreachable.listObjects_exact ⟨"", "/", "", 1⟩⟩

end ObjectStore

end BucketStore
