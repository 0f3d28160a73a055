import BucketStore.Proofs.Listing.Pages
import BucketStore.Proofs.Listing.Resume
import BucketStore.Proofs.Store.Sound

namespace BucketStore.ObjectStore

open Listing

variable {s : ObjectStore} {n : UInt64} {q : VersionQuery} {stem delimiter key cp : String} {r : VersionRow}
  {i x : Item VersionRow}

theorem version_mem (hr : r ∈ historyRows (s.history key)) : r.version ∈ s.history key := by
  rw [← map_version_historyRows (s.history key)]
  exact List.mem_map.mpr ⟨r, hr, rfl⟩

theorem exists_row {v : Version} (hv : v ∈ s.history key) : ∃ r ∈ historyRows (s.history key), r.version = v := by
  rw [← map_version_historyRows (s.history key)] at hv
  exact List.mem_map.mp hv

theorem Sound.row_ids_distinct (hs : s.Sound n) (key : String) :
    (historyRows (s.history key)).Pairwise (fun a b => a.version.idOrNull ≠ b.version.idOrNull) := by
  have h := hs.ids_distinct key
  rw [← map_version_historyRows (s.history key), List.pairwise_map] at h
  exact h

theorem Sound.rows_nodup (hs : s.Sound n) (key : String) : (historyRows (s.history key)).Nodup :=
  (hs.row_ids_distinct key).imp (fun {a b} hne heq => hne (by rw [heq]))

def RowBefore (s : ObjectStore) (key : String) (a b : VersionRow) : Prop :=
  [a, b].Sublist (historyRows (s.history key))

theorem not_rowBefore_of_plain (hs : s.isVersioned = false) (key : String) (a b : VersionRow) :
    ¬ s.RowBefore key a b := by
  intro h
  have hlength := h.length_le
  cases s with
  | versioned s => cases hs
  | plain s => cases ho : s.get? key <;> simp [history, ho, historyRows] at hlength

theorem row_precedes_iff : Item.Precedes s.RowBefore (.row key r) i ↔
    key < i.mark ∨ ∃ r', s.RowBefore key r r' ∧ i = .row key r' := by
  constructor
  · rintro (hlt | ⟨_, _, r', hbefore, heq, rfl⟩)
    · exact .inl hlt
    · cases heq
      exact .inr ⟨r', hbefore, rfl⟩
  · rintro (hlt | ⟨r', hbefore, rfl⟩)
    · exact .inl hlt
    · exact .inr ⟨key, r, r', hbefore, rfl, rfl⟩

/-- All that a listing of versions reports, page by page. -/
def versionItems (stem delimiter : String) (s : ObjectStore) : List (Item VersionRow) :=
  items stem delimiter (s.histories.map (fun e => (e.1, historyRows e.2)))

/-- What a listing of versions has left to report where `q` starts. -/
def versionsFrom (q : VersionQuery) (s : ObjectStore) : List (Item VersionRow) :=
  (items q.stem q.delimiter (s.histories.map (fun e => (e.1, q.rowsOf e.1 e.2)))).filter q.reaches

theorem rowsOf_outside (h : ¬ q.inside) (key : String) (l : History) : q.rowsOf key l = historyRows l := by
  rw [VersionQuery.rowsOf, if_neg (fun hc => h hc.1)]

theorem reaches_outside (h : ¬ q.inside) (i : Item VersionRow) : q.reaches i = q.beyond i := by
  simp [VersionQuery.reaches, h]

theorem rowsOf_suffix (key : String) (l : History) : q.rowsOf key l <:+ historyRows l := by
  rw [VersionQuery.rowsOf]
  split
  · exact resumeAfter_suffix _ _
  · exact List.suffix_rfl

theorem listVersions_eq_cut (h : s.isVersioned = true ∨ ¬ q.inside) :
    (s.listVersions q).toPage = Page.cut q.cap (s.versionsFrom q) := by
  cases s with
  | versioned s => exact versionsPage_eq_cut q s
  | plain s =>
      have hout : ¬ q.inside := h.resolve_left (by simp [isVersioned])
      have hasc : (s.entries.map (fun e => (e.1, [VersionRow.mk (.object e.2) true]))).Pairwise
          (fun a b => a.1 < b.1) := List.pairwise_map.mpr s.ascending
      have hpage := page_eq_cut_beyond q.toQuery hasc
      have hreaches : q.reaches = q.beyond := funext (reaches_outside hout)
      simp only [versionsFrom, histories, List.map_map, Function.comp_def, rowsOf_outside hout, hreaches]
      rw [List.filter_map] at hpage
      exact hpage

theorem mem_versionsFrom_row : .row key r ∈ s.versionsFrom q ↔
    Under q.stem key ∧ rolledUp? q.stem q.delimiter key = none ∧ r ∈ q.rowsOf key (s.history key) ∧
      ((q.marker = "" ∨ q.marker < key) ∨ q.inside ∧ key = q.marker) := by
  have hrows : (∃ rows, (key, rows) ∈ s.histories.map (fun e => (e.1, q.rowsOf e.1 e.2)) ∧ r ∈ rows) ↔
      r ∈ q.rowsOf key (s.history key) := by
    constructor
    · rintro ⟨rows, hmem, hr⟩
      obtain ⟨⟨k, l⟩, he, heq⟩ := List.mem_map.mp hmem
      cases heq
      rwa [history_of_mem he]
    · intro hr
      have hne : s.history key ≠ [] := by
        intro hnil
        have := (rowsOf_suffix key (s.history key)).subset hr
        rw [hnil] at this
        cases this
      exact ⟨_, List.mem_map.mpr ⟨_, mem_histories hne, rfl⟩, hr⟩
  rw [versionsFrom, List.mem_filter, mem_items_row, hrows, VersionQuery.reaches, decide_eq_true_eq,
    Query.beyond, decide_eq_true_eq]
  simp only [Item.mark, Item.value?, Option.isSome_some, and_true, and_assoc]

theorem mem_versionsFrom_commonPrefix : .commonPrefix cp ∈ s.versionsFrom q ↔
    (∃ e ∈ s.histories, rolledUp? q.stem q.delimiter e.1 = some cp) ∧ q.marker < cp := by
  rw [versionsFrom, List.mem_filter, mem_items_commonPrefix]
  simp only [List.mem_map, exists_exists_and_eq_and]
  refine and_congr_right (fun ⟨e, _, hr⟩ => ?_)
  have hbeyond : q.beyond (.commonPrefix cp : Item VersionRow) = true ↔ q.marker < cp :=
    Query.beyond_iff (rolledUp?_ne_empty hr)
  rw [VersionQuery.reaches, decide_eq_true_eq, hbeyond]
  simp [Item.value?]

theorem versionsFrom_start (stem delimiter : String) (cap : Nat) (id : String) (s : ObjectStore) :
    s.versionsFrom ⟨⟨stem, delimiter, "", cap⟩, id⟩ = s.versionItems stem delimiter := by
  have hout : ¬ (⟨⟨stem, delimiter, "", cap⟩, id⟩ : VersionQuery).inside := fun h => h.1 rfl
  rw [versionsFrom, List.filter_eq_self.mpr]
  · simp only [rowsOf_outside hout]
    rfl
  · intro i _
    rw [reaches_outside hout]
    exact decide_eq_true (.inl rfl)

theorem listVersions_start (stem delimiter : String) (cap : Nat) (id : String) (s : ObjectStore) :
    s.listVersions ⟨⟨stem, delimiter, "", cap⟩, id⟩ = s.listVersions ⟨⟨stem, delimiter, "", cap⟩, ""⟩ := by
  have hpage : (s.listVersions ⟨⟨stem, delimiter, "", cap⟩, id⟩).toPage =
      (s.listVersions ⟨⟨stem, delimiter, "", cap⟩, ""⟩).toPage := by
    rw [listVersions_eq_cut (.inr (fun h => h.1 rfl)), listVersions_eq_cut (.inr (fun h => h.1 rfl)),
      versionsFrom_start, versionsFrom_start]
  cases s with
  | plain s => rfl
  | versioned s => exact congrArg (fun p => (⟨p, lastVersionId p⟩ : VersionPage)) hpage

theorem versionsFrom_pairwise (q : VersionQuery) (s : ObjectStore) :
    (s.versionsFrom q).Pairwise (Item.Precedes s.RowBefore) := by
  apply List.Pairwise.filter
  refine items_pairwise (List.pairwise_map.mpr ?_) ?_
  · exact s.histories_ascending
  intro e he
  obtain ⟨⟨k, l⟩, hmem, rfl⟩ := List.mem_map.mp he
  rw [List.pairwise_iff_forall_sublist]
  intro a b hab
  rw [RowBefore, history_of_mem hmem]
  exact hab.trans (rowsOf_suffix k l).sublist

theorem Sound.precedes_asymm (hs : s.Sound n) (i j : Item VersionRow) (h : Item.Precedes s.RowBefore i j) :
    ¬ Item.Precedes s.RowBefore j i :=
  Item.Precedes.asymm (fun key _ _ hab => pair_sublist_asymm (hs.rows_nodup key) hab) i j h

def versionMarker (s : ObjectStore) (i : Item VersionRow) : Option String :=
  if s.isVersioned then i.value?.map (fun r => r.version.idOrNull) else none

theorem Sound.id_ne_empty (hs : s.Sound n) {v : Version} (hv : v ∈ s.history key) : v.idOrNull ≠ "" := by
  cases s with
  | plain s =>
      rw [ObjectStore.history] at hv
      cases ho : s.get? key with
      | none => rw [ho] at hv; cases hv
      | some o =>
          rw [ho] at hv
          rw [List.mem_singleton.mp hv, Version.idOrNull, Version.id?, hs key o ho]
          decide
  | versioned s =>
      rcases (Sound.history hs key).issued v hv with hid | ⟨m, _, hid⟩
      · rw [Version.idOrNull, hid]
        decide
      · rw [Version.idOrNull, hid]
        exact VersionId.ofCounter_ne_empty m

theorem versionItems_eq : s.versionItems stem delimiter = s.versionsFrom ⟨⟨stem, delimiter, "", 0⟩, ""⟩ :=
  (versionsFrom_start stem delimiter 0 "" s).symm

theorem mem_versionItems_row : .row key r ∈ s.versionItems stem delimiter ↔
    Under stem key ∧ rolledUp? stem delimiter key = none ∧ r ∈ historyRows (s.history key) := by
  rw [versionItems_eq, mem_versionsFrom_row, rowsOf_outside (fun h => h.1 rfl)]
  simp

theorem mem_versionItems_commonPrefix : .commonPrefix cp ∈ s.versionItems stem delimiter ↔
    ∃ e ∈ s.histories, rolledUp? stem delimiter e.1 = some cp := by
  rw [versionItems_eq, mem_versionsFrom_commonPrefix]
  exact ⟨fun h => h.1, fun h => ⟨h, by obtain ⟨e, _, hr⟩ := h; exact empty_lt (rolledUp?_ne_empty hr)⟩⟩

theorem mem_versionsFrom_outside (hout : ¬ q.inside) (hm : q.marker ≠ "") :
    i ∈ s.versionsFrom q ↔ i ∈ s.versionItems q.stem q.delimiter ∧ q.marker < i.mark := by
  cases i with
  | row key r =>
      rw [mem_versionsFrom_row, mem_versionItems_row, rowsOf_outside hout]
      simp only [hout, hm, false_or, false_and, or_false, and_assoc, Item.mark]
  | commonPrefix cp => rw [mem_versionsFrom_commonPrefix, mem_versionItems_commonPrefix, Item.mark]

theorem mem_versionsFrom_inside (hin : q.inside) : i ∈ s.versionsFrom q ↔
    i ∈ s.versionItems q.stem q.delimiter ∧ q.marker < i.mark ∨
      ∃ r ∈ resumeAfter q.versionIdMarker (historyRows (s.history q.marker)), i = .row q.marker r ∧
        Under q.stem q.marker ∧ rolledUp? q.stem q.delimiter q.marker = none := by
  cases i with
  | commonPrefix cp =>
      rw [mem_versionsFrom_commonPrefix, mem_versionItems_commonPrefix, Item.mark]
      simp
  | row key r =>
      rw [mem_versionsFrom_row, mem_versionItems_row, Item.mark]
      constructor
      · rintro ⟨hu, hr, hrow, (hm | hlt) | ⟨_, rfl⟩⟩
        · exact absurd hm hin.1
        · rw [VersionQuery.rowsOf, if_neg (fun hc => hlt.ne' hc.2)] at hrow
          exact .inl ⟨⟨hu, hr, hrow⟩, hlt⟩
        · rw [VersionQuery.rowsOf, if_pos ⟨hin, rfl⟩] at hrow
          exact .inr ⟨r, hrow, rfl, hu, hr⟩
      · rintro (⟨⟨hu, hr, hrow⟩, hlt⟩ | ⟨r', hrow, heq, hu, hr⟩)
        · refine ⟨hu, hr, ?_, .inl (.inr hlt)⟩
          rwa [VersionQuery.rowsOf, if_neg (fun hc => hlt.ne' hc.2)]
        · cases heq
          refine ⟨hu, hr, ?_, .inr ⟨hin, rfl⟩⟩
          rwa [VersionQuery.rowsOf, if_pos ⟨hin, rfl⟩]

theorem Sound.mem_resumeAfter (hs : s.Sound n) {r₀ : VersionRow} (h₀ : r₀ ∈ historyRows (s.history key)) :
    r ∈ resumeAfter r₀.version.idOrNull (historyRows (s.history key)) ↔ s.RowBefore key r₀ r := by
  obtain ⟨front, back, hsplit⟩ := List.append_of_mem h₀
  have hdistinct := hs.row_ids_distinct key
  have hnodup := hs.rows_nodup key
  rw [RowBefore, hsplit] at *
  rw [resumeAfter_split (fun a ha => (List.pairwise_append.mp hdistinct).2.2 a ha r₀ List.mem_cons_self)]
  constructor
  · exact fun hr => pair_sublist_iff.mpr ⟨front, back, rfl, hr⟩
  · intro hr
    have hmem := hr.subset (List.mem_cons_of_mem _ List.mem_cons_self)
    rcases List.mem_append.mp hmem with hfront | hback
    · have hback : [r, r₀].Sublist (front ++ r₀ :: back) :=
        List.Sublist.append (List.singleton_sublist.mpr hfront) (List.singleton_sublist.mpr List.mem_cons_self)
      exact absurd hback (pair_sublist_asymm hnodup hr)
    · rcases List.mem_cons.mp hback with rfl | hback
      · exact absurd hr (pair_sublist_asymm hnodup hr)
      · exact hback

theorem Sound.mem_versionsFrom_after (hs : s.Sound n) (hne : x.mark ≠ "")
    (hx : x ∈ s.versionItems q.stem q.delimiter) (hmarker : q.marker = x.mark)
    (hid : q.versionIdMarker = (s.versionMarker x).getD "") :
    i ∈ s.versionsFrom q ↔ i ∈ s.versionItems q.stem q.delimiter ∧ Item.Precedes s.RowBefore x i := by
  cases x with
  | commonPrefix cp =>
      obtain ⟨e, _, hr⟩ := mem_versionItems_commonPrefix.mp hx
      have hout : ¬ q.inside := fun h => h.2 (by rw [hid, versionMarker]; simp [Item.value?])
      rw [mem_versionsFrom_outside hout (by rw [hmarker]; exact rolledUp?_ne_empty hr), hmarker]
      simp [Item.Precedes]
  | row k r₀ =>
      obtain ⟨hu, hr, h₀⟩ := mem_versionItems_row.mp hx
      have hmarker : q.marker = k := hmarker
      have hk : k ≠ "" := hne
      have hv : r₀.version ∈ s.history k := by
        rw [← map_version_historyRows (s.history k)]
        exact List.mem_map.mpr ⟨r₀, h₀, rfl⟩
      rw [row_precedes_iff]
      cases hversioned : s.isVersioned with
      | false =>
          have hout : ¬ q.inside := fun h => h.2 (by rw [hid, versionMarker, hversioned]; simp)
          rw [mem_versionsFrom_outside hout (hmarker ▸ hk), hmarker]
          simp [not_rowBefore_of_plain hversioned]
      | true =>
          have hid : q.versionIdMarker = r₀.version.idOrNull := by
            rw [hid, versionMarker, hversioned]
            rfl
          have hin : q.inside := ⟨hmarker ▸ hk, hid ▸ hs.id_ne_empty hv⟩
          rw [mem_versionsFrom_inside hin, hid, hmarker, and_or_left]
          refine or_congr_right ⟨?_, ?_⟩
          · rintro ⟨r, hrow, rfl, _, _⟩
            have hbefore := (hs.mem_resumeAfter h₀).mp hrow
            exact ⟨mem_versionItems_row.mpr
              ⟨hu, hr, hbefore.subset (List.mem_cons_of_mem _ List.mem_cons_self)⟩, r, hbefore, rfl⟩
          · rintro ⟨_, r, hbefore, rfl⟩
            exact ⟨r, (hs.mem_resumeAfter h₀).mpr hbefore, rfl, hu, hr⟩

theorem Sound.versionsFrom_after (hs : s.Sound n) (hne : x.mark ≠ "") {front back : List (Item VersionRow)}
    (hsplit : s.versionItems q.stem q.delimiter = front ++ x :: back) (hmarker : q.marker = x.mark)
    (hid : q.versionIdMarker = (s.versionMarker x).getD "") : s.versionsFrom q = back := by
  have hpairwise : (s.versionItems q.stem q.delimiter).Pairwise (Item.Precedes s.RowBefore) := by
    rw [versionItems_eq]
    exact versionsFrom_pairwise _ s
  have hx : x ∈ s.versionItems q.stem q.delimiter := by
    rw [hsplit]
    exact List.mem_append_right _ List.mem_cons_self
  apply eq_back_of_mem_iff hs.precedes_asymm (hsplit ▸ hpairwise) (versionsFrom_pairwise q s)
  intro i
  rw [hs.mem_versionsFrom_after hne hx hmarker hid, hsplit]

end BucketStore.ObjectStore
