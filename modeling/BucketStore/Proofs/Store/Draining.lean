import BucketStore.Proofs.Store.Agreement

namespace BucketStore.ObjectStore

open Listing

variable {s t : ObjectStore} {n : UInt64} {key id : String} {v : Version}

def versions (s : ObjectStore) : List Version := s.histories.flatMap Prod.snd

theorem mem_versions : v ∈ s.versions ↔ ∃ key, v ∈ s.history key := by
  rw [versions, List.mem_flatMap]
  constructor
  · rintro ⟨⟨key, h⟩, hm, hv⟩
    exact ⟨key, by rwa [history_of_mem hm]⟩
  · rintro ⟨key, hv⟩
    exact ⟨_, mem_histories (List.ne_nil_of_mem hv), hv⟩

theorem mem_nonempty_histories {h : History} :
    (key, h) ∈ s.histories.filter (fun e => e.2 ≠ []) ↔ h = s.history key ∧ h ≠ [] := by
  rw [List.mem_filter, decide_eq_true_eq]
  constructor
  · exact fun ⟨hm, hne⟩ => ⟨(history_of_mem hm).symm, hne⟩
  · rintro ⟨rfl, hne⟩
    exact ⟨mem_histories hne, hne⟩

theorem flatMap_nonempty {κ α : Type} (l : List (κ × List α)) :
    (l.filter (fun e => e.2 ≠ [])).flatMap Prod.snd = l.flatMap Prod.snd := by
  induction l with
  | nil => rfl
  | cons e rest ih =>
      rw [List.filter_cons, List.flatMap_cons, ← ih]
      split
      · rw [List.flatMap_cons]
      · rename_i hnil
        rw [show e.2 = [] by simpa using hnil, List.nil_append]

theorem versions_filter {p : Version → Bool} (h : ∀ key, t.history key = (s.history key).filter p) :
    t.versions = s.versions.filter p := by
  have asc : ∀ {l : List (String × History)}, l.Pairwise (fun a b => a.1 < b.1) →
      (l.filter (fun e => e.2 ≠ [])).Pairwise (fun a b => a.1 < b.1) := fun hl => hl.filter _
  have hkept : t.histories.filter (fun e => e.2 ≠ []) =
      (s.histories.map (fun e => (e.1, e.2.filter p))).filter (fun e => e.2 ≠ []) := by
    refine eq_of_mem_iff_of_asymm (fun _ _ => lt_asymm) (asc t.histories_ascending)
      (asc (List.pairwise_map.mpr s.histories_ascending)) (fun ⟨key, l⟩ => ?_)
    rw [mem_nonempty_histories, List.mem_filter, List.mem_map, decide_eq_true_eq, h key]
    refine and_congr_left (fun hne => ⟨?_, ?_⟩)
    · rintro rfl
      have hfull : s.history key ≠ [] := fun hnil => hne (by rw [hnil]; rfl)
      exact ⟨_, mem_histories hfull, rfl⟩
    · rintro ⟨⟨k, l'⟩, hm, heq⟩
      cases heq
      rw [history_of_mem hm]
  rw [versions, ← flatMap_nonempty, hkept, flatMap_nonempty, List.flatMap_map, versions, List.filter_flatMap]

theorem versions_nodup (hfiled : ∀ key, ∀ v ∈ s.history key, v.key = key)
    (hnodup : ∀ key, (s.history key).Nodup) : s.versions.Nodup := by
  refine List.nodup_flatMap.mpr ⟨fun e he => ?_,
    s.histories_ascending.imp_of_mem (fun {e e'} he he' hlt v hv hv' => ?_)⟩
  · rw [← history_of_mem he]
    exact hnodup e.1
  · rw [← history_of_mem he] at hv
    rw [← history_of_mem he'] at hv'
    exact hlt.ne ((hfiled _ v hv).symm.trans (hfiled _ v hv'))

theorem Sound.dropVersion_eq_version? (hs : s.Sound n) (key id : String) :
    (s.dropVersion key id).1 = s.version? key id := by
  cases s with
  | plain s =>
      rw [hs.plain_version?, ObjectStore.dropVersion]
      split <;> rfl
  | versioned s =>
      rw [← hs.find?_eq_version?]
      simp only [ObjectStore.dropVersion, VersionedStore.dropVersion]
      cases s.find? key id with
      | none => rfl
      | some v => cases (s.history key).remove id <;> rfl

section Whole

variable (hfiled : ∀ key, ∀ v ∈ s.history key, v.key = key)

include hfiled

theorem mem_versions_iff : v ∈ s.versions ↔ v ∈ s.history v.key := by
  rw [mem_versions]
  constructor
  · rintro ⟨key, hv⟩
    rwa [hfiled key v hv]
  · exact fun hv => ⟨v.key, hv⟩

theorem Sound.drop_listed (hs : s.Sound n) (hv : v ∈ s.versions) :
    (s.dropVersion v.key v.idOrNull).1 = some v ∧
      (s.dropVersion v.key v.idOrNull).2.versions = s.versions.filter (· ≠ v) := by
  have hmem := (mem_versions_iff hfiled).mp hv
  refine ⟨(hs.dropVersion_eq_version? _ _).trans (hs.version?_eq_some.mpr ⟨hmem, rfl⟩), versions_filter (fun key => ?_)⟩
  rw [hs.history_dropVersion]
  split
  · rename_i hkey
    subst hkey
    refine List.filter_congr (fun w hw => ?_)
    rw [decide_eq_decide, not_iff_not]
    exact ⟨fun hid => (hs.eq_of_id hmem hw hid).symm, fun heq => by rw [heq]⟩
  · rename_i hkey
    refine (List.filter_eq_self.mpr (fun w hw => decide_eq_true ?_)).symm
    rintro rfl
    exact hkey (hfiled key w hw).symm

end Whole

theorem map_version_rows (s : ObjectStore) :
    ((s.versionItems "" "").filterMap Item.value?).map VersionRow.version = s.versions := by
  rw [version_rows, List.map_flatMap]
  exact List.flatMap_congr (fun e _ => map_version_historyRows e.2)

theorem length_versionItems (s : ObjectStore) : (s.versionItems "" "").length = s.versions.length := by
  have hprefixes : (s.versionItems "" "").filterMap Item.commonPrefix? = [] := by
    refine List.filterMap_eq_nil_iff.mpr (fun i hi => ?_)
    cases i with
    | row key r => rfl
    | commonPrefix cp =>
        obtain ⟨e, _, hr⟩ := mem_versionItems_commonPrefix.mp hi
        rw [(shown_without_stem e.1).2] at hr
        cases hr
  have hlength := Page.length_items ⟨s.versionItems "" "", false⟩
  rw [Page.rows, Page.commonPrefixes, hprefixes] at hlength
  rw [← map_version_rows, List.length_map]
  exact hlength

theorem isEmpty_of_no_versions (h : s.versions = []) : s.isEmpty = true := by
  have hnone : s.current = [] := by
    rw [current_eq, List.filterMap_eq_nil_iff]
    intro e he
    rw [List.flatMap_eq_nil_iff.mp h e he]
    rfl
  rw [isEmpty, size, hnone]
  rfl

end BucketStore.ObjectStore
