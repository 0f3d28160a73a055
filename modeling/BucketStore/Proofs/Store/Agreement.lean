import BucketStore.Proofs.Store.Live
import BucketStore.Proofs.Store.Versions
import BucketStore.Proofs.Store.Writing

namespace BucketStore

namespace Listing

theorem shown_without_stem (key : String) : Under "" key ∧ rolledUp? "" "" key = none := by
  refine ⟨List.nil_prefix, Option.eq_none_iff_forall_ne_some.mpr (fun cp h => ?_)⟩
  exact (rolledUp?_eq_some_iff.mp h).1 rfl

theorem Page.cut_whole {α : Type} {cap : Nat} {items : List (Item α)} (h : items.length ≤ cap) :
    Page.cut cap items = ⟨items, false⟩ := by
  rw [Page.cut, List.take_of_length_le h, decide_eq_false (not_lt.mpr h)]

theorem filter_isLatest_historyRows (h : History) :
    (historyRows h).filter VersionRow.isLatest = (h.head?.map (fun v => ⟨v, true⟩)).toList := by
  cases h with
  | nil => rfl
  | cons v older => simp [historyRows, List.filter_map, Function.comp_def]

def VersionRow.head? (r : VersionRow) : Option Head := r.version.object?.map Object.toHead

theorem filter_head? (key : String) (rows : List VersionRow) :
    (rows.filterMap VersionRow.head?).filter (fun h => h.key = key) =
      (rows.filter (fun r => r.version.key = key)).filterMap VersionRow.head? := by
  rw [List.filter_filterMap, List.filterMap_filter]
  congr 1
  funext ⟨v, latest⟩
  cases v with
  | marker m => simp [VersionRow.head?, Version.object?]
  | object o =>
      by_cases hkey : o.key = key <;> simp [VersionRow.head?, Version.object?, Version.key, Option.filter, hkey]

theorem latest_heads_historyRows (h : History) :
    ((historyRows h).filter VersionRow.isLatest).filterMap VersionRow.head? =
      ((History.current? h).map Object.toHead).toList := by
  rw [filter_isLatest_historyRows]
  cases h with
  | nil => rfl
  | cons v older => cases v <;> rfl

theorem latest_heads (p : String → Bool) (l : List (String × History)) :
    (((l.map (fun e => (e.1, historyRows e.2))).filter (fun e => p e.1)).flatMap Prod.snd |>.filter
        VersionRow.isLatest).filterMap VersionRow.head? =
      (((l.filterMap (fun e => (History.current? e.2).map (fun o => (e.1, o)))).map
        (fun e => (e.1, [e.2.toHead]))).filter (fun e => p e.1)).flatMap Prod.snd := by
  induction l with
  | nil => rfl
  | cons e rest ih =>
      have hhead := latest_heads_historyRows e.2
      cases hp : p e.1 with
      | false => cases hc : History.current? e.2 <;> simp [hp, hc, ih]
      | true =>
          cases hc : History.current? e.2 <;> rw [hc] at hhead <;>
            simp [hp, hc, ih, List.filter_append, List.filterMap_append, hhead]

end Listing

namespace ObjectStore

open Listing

variable {s : ObjectStore} {n : UInt64} {key id stem delimiter : String} {v : Version} {cap : Nat}

/-- The version of a key that an ID names, where having none means being the null version. -/
def version? (key id : String) (s : ObjectStore) : Option Version :=
  List.find? (fun v => v.idOrNull = id) (s.history key)

theorem Sound.version?_eq_some (hs : s.Sound n) :
    s.version? key id = some v ↔ v ∈ s.history key ∧ v.idOrNull = id := by
  constructor
  · intro h
    rw [version?] at h
    exact ⟨List.mem_of_find?_eq_some h, by simpa using List.find?_some h⟩
  · rintro ⟨hv, rfl⟩
    rw [version?]
    cases h : List.find? (fun w => w.idOrNull = v.idOrNull) (s.history key) with
    | none => exact absurd (decide_eq_true rfl) (List.find?_eq_none.mp h v hv)
    | some w =>
        have hid : w.idOrNull = v.idOrNull := by simpa using List.find?_some h
        rw [hs.eq_of_id (List.mem_of_find?_eq_some h) hv hid]

theorem version?_eq_none : s.version? key id = none ↔ ∀ v ∈ s.history key, v.idOrNull ≠ id := by
  rw [version?, List.find?_eq_none]
  simp

theorem Sound.find?_eq_version? {s : VersionedStore} (hs : (versioned s).Sound n) (key id : String) :
    s.find? key id = (versioned s).version? key id := by
  rw [VersionedStore.find?, History.find?, version?, ObjectStore.history, ← List.head?_filter, ← List.head?_filter]
  congr 1
  refine List.filter_congr (fun v hv => ?_)
  simp only [hs.id?_eq hv, Option.some_inj]

theorem Sound.plain_version? {s : PlainStore} (hs : (plain s).Sound n) (key id : String) :
    (plain s).version? key id = if id = VersionId.null then (s.get? key).map .object else none := by
  rw [version?, ObjectStore.history]
  cases ho : s.get? key with
  | none => simp
  | some o => simp [Version.idOrNull, Version.id?, hs key o ho, eq_comm]

theorem Sound.getVersion?_eq (hs : s.Sound n) (key id : String) :
    s.getVersion? key id = (s.version? key id).bind Version.object? := by
  cases s with
  | versioned s => rw [getVersion?, hs.find?_eq_version?]
  | plain s =>
      rw [getVersion?, hs.plain_version?]
      split
      · cases s.get? key <;> rfl
      · rfl

theorem Sound.isMarker_eq (hs : s.Sound n) (key id : String) :
    s.isMarker key id = (s.version? key id).any Version.isMarker := by
  cases s with
  | versioned s => rw [isMarker, hs.find?_eq_version?]
  | plain s =>
      rw [isMarker, hs.plain_version?]
      split
      · cases s.get? key <;> rfl
      · rfl

theorem current_eq (s : ObjectStore) :
    s.current = s.histories.filterMap (fun e => (History.current? e.2).map (fun o => (e.1, o))) := by
  cases s with
  | versioned s => rfl
  | plain s =>
      rw [histories, List.filterMap_map]
      exact List.filterMap_some.symm

theorem listObjects_whole (h : (s.liveItems stem delimiter).length ≤ cap) :
    s.listObjects ⟨stem, delimiter, "", cap⟩ = ⟨s.liveItems stem delimiter, false⟩ := by
  have hall : (s.liveItems stem delimiter).filter (Query.beyond ⟨stem, delimiter, "", cap⟩) =
      s.liveItems stem delimiter := List.filter_eq_self.mpr (fun _ _ => decide_eq_true (.inl rfl))
  rw [listObjects_eq_cut, hall, Page.cut_whole h]

theorem listVersions_whole (h : (s.versionItems stem delimiter).length ≤ cap) :
    s.listVersions ⟨⟨stem, delimiter, "", cap⟩, ""⟩ = ⟨⟨s.versionItems stem delimiter, false⟩, none⟩ := by
  have hpage : (s.listVersions ⟨⟨stem, delimiter, "", cap⟩, ""⟩).toPage =
      ⟨s.versionItems stem delimiter, false⟩ := by
    rw [listVersions_eq_cut (.inr (fun h => h.1 rfl)), versionsFrom_start, Page.cut_whole h]
  cases s with
  | plain s => exact congrArg (fun p => (⟨p, none⟩ : VersionPage)) hpage
  | versioned s =>
      refine congrArg (fun p => (⟨p, lastVersionId p⟩ : VersionPage)) ?_
      exact hpage

theorem of_mem_listObjects {q : Query} {h : Head} (hh : h ∈ (s.listObjects q).rows) :
    ∃ key o, s.get? key = some o ∧ o.toHead = h := by
  rw [listObjects_eq_cut] at hh
  obtain ⟨key, hi⟩ := mem_value?_iff.mp hh
  obtain ⟨_, _, o, ho, hhead⟩ := mem_liveItems_row.mp (List.mem_of_mem_filter (List.mem_of_mem_take hi))
  exact ⟨key, o, ho, hhead⟩

theorem of_mem_listVersions {q : VersionQuery} {r : VersionRow} (hr : r ∈ (s.listVersions q).rows) :
    ∃ key, r.version ∈ s.history key := by
  obtain ⟨q', hcut⟩ : ∃ q', (s.listVersions q).toPage = Page.cut q.cap (s.versionsFrom q') := by
    cases s with
    | plain s =>
        have hcut := listVersions_eq_cut (s := plain s) (q := ⟨q.toQuery, ""⟩) (.inr (fun h => h.2 rfl))
        exact ⟨⟨q.toQuery, ""⟩, hcut⟩
    | versioned s => exact ⟨q, listVersions_eq_cut (.inl rfl)⟩
  rw [hcut] at hr
  obtain ⟨key, hi⟩ := mem_value?_iff.mp hr
  obtain ⟨_, _, hmem, _⟩ := mem_versionsFrom_row.mp (List.mem_of_mem_take hi)
  exact ⟨key, version_mem ((rowsOf_suffix _ _).subset hmem)⟩

theorem live_rows (stem delimiter : String) (s : ObjectStore) :
    (s.liveItems stem delimiter).filterMap Item.value? =
      (((s.versionItems stem delimiter).filterMap Item.value?).filter VersionRow.isLatest).filterMap
        VersionRow.head? := by
  rw [liveItems, versionItems, value?_items, value?_items, current_eq,
    latest_heads (fun key => Under stem key ∧ rolledUp? stem delimiter key = none)]

theorem live_commonPrefixes (stem delimiter : String) (s : ObjectStore) :
    (s.liveItems stem delimiter).filterMap Item.commonPrefix? ⊆
      (s.versionItems stem delimiter).filterMap Item.commonPrefix? := by
  intro cp hcp
  obtain ⟨e, he, hr⟩ := mem_items_commonPrefix.mp (mem_commonPrefix?_iff.mp hcp)
  obtain ⟨⟨key, o⟩, ho, rfl⟩ := List.mem_map.mp he
  have hne := List.ne_nil_of_mem (mem_history_of_get? (mem_current.mp ho))
  exact mem_commonPrefix?_iff.mpr (mem_versionItems_commonPrefix.mpr ⟨_, mem_histories hne, hr⟩)

theorem version_rows (s : ObjectStore) :
    (s.versionItems "" "").filterMap Item.value? = s.histories.flatMap (fun e => historyRows e.2) := by
  rw [versionItems, value?_items]
  simp [shown_without_stem, List.flatMap_map]

theorem length_live_rows (s : ObjectStore) : ((s.liveItems "" "").filterMap Item.value?).length = s.size := by
  rw [liveItems, value?_items]
  simp [shown_without_stem, List.flatMap_map, size]

section Whole

variable (hfiled : ∀ key, ∀ v ∈ s.history key, v.key = key)

include hfiled

theorem version_rows_of_key (key : String) :
    ((s.versionItems "" "").filterMap Item.value?).filter (fun r => r.version.key = key) =
      historyRows (s.history key) := by
  have hkey : ∀ e ∈ s.histories, ∀ r ∈ historyRows e.2, r.version.key = e.1 := by
    rintro ⟨k, h⟩ he r hr
    rw [← history_of_mem he] at hr
    exact hfiled k _ (version_mem hr)
  have hother : ∀ l ⊆ s.histories, (∀ e ∈ l, e.1 ≠ key) →
      (l.flatMap (fun e => historyRows e.2)).filter (fun r => r.version.key = key) = [] := by
    intro l hl hne
    simp only [List.filter_eq_nil_iff, List.mem_flatMap, decide_eq_true_eq]
    rintro r ⟨e, he, hr⟩
    rw [hkey e (hl he) r hr]
    exact hne e he
  rw [version_rows]
  by_cases hmem : (key, s.history key) ∈ s.histories
  · have hself : (historyRows (s.history key)).filter (fun r => r.version.key = key) = historyRows (s.history key) :=
      List.filter_eq_self.mpr (fun r hr => decide_eq_true (hkey _ hmem r hr))
    have hasc := s.histories_ascending
    obtain ⟨front, back, hsplit⟩ := List.append_of_mem hmem
    rw [hsplit] at hother hasc ⊢
    obtain ⟨_, hback, hcross⟩ := List.pairwise_append.mp hasc
    have hfront := hother front (List.subset_append_left _ _) (fun e he => (hcross e he _ List.mem_cons_self).ne)
    have hrest := hother back (fun e he => List.mem_append_right _ (List.mem_cons_of_mem _ he))
      (fun e he => ((List.pairwise_cons.mp hback).1 e he).ne')
    rw [List.flatMap_append, List.flatMap_cons, List.filter_append, List.filter_append, hfront, hself, hrest,
      List.nil_append, List.append_nil]
  · have hnil : s.history key = [] := by_contra (fun h => hmem (mem_histories h))
    rw [hnil]
    refine hother _ (List.Subset.refl _) ?_
    rintro ⟨k, h⟩ he rfl
    exact hmem (by rwa [history_of_mem he])

theorem exists_version_row : (∃ r ∈ (s.versionItems "" "").filterMap Item.value?, r.version = v) ↔
    v ∈ s.history v.key := by
  have hrow : ∀ r : VersionRow, r ∈ (s.versionItems "" "").filterMap Item.value? ↔
      r ∈ historyRows (s.history r.version.key) := by
    intro r
    rw [← version_rows_of_key hfiled r.version.key, List.mem_filter, decide_eq_true rfl, and_iff_left rfl]
  constructor
  · rintro ⟨r, hr, rfl⟩
    exact version_mem ((hrow r).mp hr)
  · intro hv
    obtain ⟨r, hr, rfl⟩ := exists_row hv
    exact ⟨r, (hrow r).mpr hr, rfl⟩

theorem Sound.version?_listed (hs : s.Sound n) : s.version? key id = some v ↔
    (∃ r ∈ (s.versionItems "" "").filterMap Item.value?, r.version = v) ∧ v.key = key ∧ v.idOrNull = id := by
  rw [hs.version?_eq_some, exists_version_row hfiled]
  constructor
  · rintro ⟨hv, hid⟩
    obtain rfl := hfiled key v hv
    exact ⟨hv, rfl, hid⟩
  · rintro ⟨hv, rfl, hid⟩
    exact ⟨hv, hid⟩

theorem version?_not_listed : s.version? key id = none ↔
    ∀ r ∈ (s.versionItems "" "").filterMap Item.value?, r.version.key = key → r.version.idOrNull ≠ id := by
  rw [version?_eq_none]
  constructor
  · rintro h r hr rfl
    exact h r.version ((exists_version_row hfiled).mp ⟨r, hr, rfl⟩)
  · intro h v hv
    obtain rfl := hfiled key v hv
    obtain ⟨r, hr, rfl⟩ := (exists_version_row hfiled).mpr hv
    exact h r hr rfl

theorem live_rows_of_key (key : String) :
    ((s.liveItems "" "").filterMap Item.value?).filter (fun h => h.key = key) =
      ((s.get? key).map Object.toHead).toList := by
  rw [live_rows, filter_head?, List.filter_comm, version_rows_of_key hfiled, latest_heads_historyRows, get?_eq_newest,
    History.current?]

theorem exists_live_row : (∃ h ∈ (s.liveItems "" "").filterMap Item.value?, h.key = key) ↔
    ∃ o, s.get? key = some o := by
  have hrows := live_rows_of_key hfiled key
  constructor
  · rintro ⟨h, hh, hkey⟩
    have hmem : h ∈ ((s.get? key).map Object.toHead).toList :=
      hrows ▸ List.mem_filter.mpr ⟨hh, decide_eq_true hkey⟩
    obtain ⟨o, ho, _⟩ := Option.map_eq_some_iff.mp (Option.mem_toList.mp hmem)
    exact ⟨o, ho⟩
  · rintro ⟨o, ho⟩
    have hmem : o.toHead ∈ ((s.get? key).map Object.toHead).toList := by simp [ho]
    rw [← hrows] at hmem
    exact ⟨o.toHead, (List.mem_filter.mp hmem).1, of_decide_eq_true (List.mem_filter.mp hmem).2⟩

theorem latest_row_of_key (key : String) :
    ((s.versionItems "" "").filterMap Item.value?).filter (fun r => r.version.key = key ∧ r.isLatest) =
      ((s.history key).head?.map (fun v => ⟨v, true⟩)).toList := by
  rw [← filter_isLatest_historyRows, ← version_rows_of_key hfiled, List.filter_filter]
  refine List.filter_congr (fun r _ => ?_)
  rw [Bool.decide_and, Bool.decide_eq_true, Bool.and_comm]

end Whole

end ObjectStore

end BucketStore
