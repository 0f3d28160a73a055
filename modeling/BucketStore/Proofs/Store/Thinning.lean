import BucketStore.Proofs.Store.Versions

namespace BucketStore

open Listing

namespace History

variable {n : UInt64} {h : History} {v w : Version}

theorem Sound.older_of_before (hs : h.Sound n) (hvw : [v, w].Sublist h) (hv : v.idOrNull ≠ VersionId.null)
    (hw : w.idOrNull ≠ VersionId.null) : VersionId.olderThan w.idOrNull v.idOrNull = true := by
  have hnewer : v.NewerThan w := List.pairwise_iff_forall_sublist.mp hs.ordered hvw
  rcases hs.issued v (hvw.subset List.mem_cons_self) with hid | ⟨m, _, hid⟩
  · exact absurd (by rw [Version.idOrNull, hid]; rfl) hv
  · rcases hs.issued w (hvw.subset (List.mem_cons_of_mem _ List.mem_cons_self)) with hid' | ⟨k, _, hid'⟩
    · exact absurd (by rw [Version.idOrNull, hid']; rfl) hw
    · rw [Version.idOrNull, Version.idOrNull, hid, hid', Option.getD_some, Option.getD_some,
        VersionId.olderThan_ofCounter]
      exact hnewer.2 m k hid hid'

theorem Sound.not_older_of_before (hs : h.Sound n) (hvw : [v, w].Sublist h) (hw : w.idOrNull ≠ VersionId.null) :
    VersionId.olderThan v.idOrNull w.idOrNull = false := by
  by_cases hv : v.idOrNull = VersionId.null
  · rw [hv, VersionId.not_olderThan_of_null]
  · have hlt := hs.older_of_before hvw hv hw
    simp only [VersionId.olderThan, Bool.and_eq_true, decide_eq_true_eq] at hlt
    simp only [VersionId.olderThan, Bool.and_eq_false_iff, decide_eq_false_iff_not]
    exact .inr (lt_asymm hlt.2)

end History

namespace ObjectStore

variable {s s' : ObjectStore} {n : UInt64} {key id : String} {v w : Version} {r r₀ : VersionRow}

theorem RowBefore.versions (h : s.RowBefore key r₀ r) : [r₀.version, r.version].Sublist (s.history key) := by
  rw [← map_version_historyRows (s.history key)]
  exact h.map VersionRow.version

theorem Sound.rowBefore_of_versions (hs : s.Sound n) (h₀ : r₀ ∈ historyRows (s.history key))
    (hr : r ∈ historyRows (s.history key)) (h : [r₀.version, r.version].Sublist (s.history key)) :
    s.RowBefore key r₀ r := by
  have hne : r₀ ≠ r := fun heq => pair_sublist_asymm (hs.history_nodup key) h (heq ▸ h)
  refine (pair_sublist_total h₀ hr hne).resolve_right (fun h' => ?_)
  exact pair_sublist_asymm (hs.history_nodup key) h (RowBefore.versions h')

theorem Sound.history_of_pair (hs : s.Sound n) (h : [v, w].Sublist (s.history key)) :
    s.isVersioned = true ∧ (s.history key).Sound n := by
  cases s with
  | versioned s => exact ⟨rfl, Sound.history hs key⟩
  | plain s =>
      have hlength := h.length_le
      cases ho : s.get? key <;> simp [ObjectStore.history, ho] at hlength

/-- The null version `v` stands in front of every version older than the marker `id`, which is gone. -/
def Overlooks (s : ObjectStore) (key id : String) (v : Version) : Prop :=
  v.idOrNull = VersionId.null ∧ id ≠ VersionId.null ∧ (∀ w ∈ s.history key, w.idOrNull ≠ id) ∧
    v ∈ (s.history key).takeWhile (fun w => !VersionId.olderThan w.idOrNull id)

theorem mem_dropWhile_rows {p : Version → Bool} (hv : v ∈ s.history key) (hp : v ∉ (s.history key).takeWhile p) :
    ∃ r ∈ (historyRows (s.history key)).dropWhile (fun r => p r.version), r.version = v := by
  have hsplit : v ∈ (s.history key).takeWhile p ++ (s.history key).dropWhile p := by
    rwa [List.takeWhile_append_dropWhile]
  have hdrop := (List.mem_append.mp hsplit).resolve_left hp
  rw [← map_version_historyRows (s.history key), List.dropWhile_map] at hdrop
  exact List.mem_map.mp hdrop

theorem Sound.resumes_or_overlooks {n' : UInt64} (hs : s.Sound n) (hs' : s'.Sound n')
    (hsub : (s'.history key).Sublist (s.history key)) (h : s.RowBefore key r₀ r)
    (hv : r.version ∈ s'.history key) :
    (∃ r' ∈ resumeAfter r₀.version.idOrNull (historyRows (s'.history key)), r'.version = r.version) ∨
      s'.Overlooks key r₀.version.idOrNull r.version := by
  have hbefore := h.versions
  have hsound := (hs.history_of_pair hbefore).2
  by_cases hgone : ∀ w ∈ s'.history key, w.idOrNull ≠ r₀.version.idOrNull
  · rw [resumeAfter_gone (fun r hr => hgone _ (version_mem hr))]
    by_cases hnull : r₀.version.idOrNull = VersionId.null
    · rw [if_pos hnull]
      exact .inl (exists_row hv)
    · rw [if_neg hnull]
      by_cases htake : r.version ∈
          (s'.history key).takeWhile (fun w => !VersionId.olderThan w.idOrNull r₀.version.idOrNull)
      · refine .inr ⟨?_, hnull, hgone, htake⟩
        by_contra hdrawn
        have hnot := ((mem_takeWhile_iff (hs'.history_nodup key)).mp htake).2.1
        rw [hsound.older_of_before hbefore hnull hdrawn] at hnot
        cases hnot
      · exact .inl (mem_dropWhile_rows hv htake)
  · push Not at hgone
    obtain ⟨w, hw, hid⟩ := hgone
    obtain rfl : w = r₀.version :=
      hs.eq_of_id (hsub.subset hw) (hbefore.subset List.mem_cons_self) hid
    have hkept := pair_sublist_of_sublist (hs.history_nodup key) hsub hbefore hw hv
    obtain ⟨r₁, hr₁, heq₁⟩ := exists_row hw
    obtain ⟨r₂, hr₂, heq₂⟩ := exists_row hv
    rw [← heq₁, ← heq₂] at hkept
    rw [← heq₁]
    exact .inl ⟨r₂, (hs'.mem_resumeAfter hr₁).mpr (hs'.rowBefore_of_versions hr₁ hr₂ hkept), heq₂⟩

/-- `v` and all in front of it were filed after the version named `id`, or are null. -/
def Passed (s : ObjectStore) (key id : String) (v : Version) : Prop :=
  id ≠ VersionId.null ∧ v ∈ s.history key ∧ ∀ w, w = v ∨ [w, v].Sublist (s.history key) →
    w.idOrNull ≠ id ∧ VersionId.olderThan w.idOrNull id = false

theorem Passed.thin (h : s.Passed key id v) (hsub : (s'.history key).Sublist (s.history key))
    (hv : v ∈ s'.history key) : s'.Passed key id v :=
  ⟨h.1, hv, fun w hw => h.2.2 w (hw.imp (fun heq => heq) (fun hw => hw.trans hsub))⟩

theorem Overlooks.passed (hs : s.Sound n) (h : s.Overlooks key id v) : s.Passed key id v := by
  obtain ⟨_, hid, hgone, htake⟩ := h
  obtain ⟨hv, hnot, hbefore⟩ := (mem_takeWhile_iff (hs.history_nodup key)).mp htake
  refine ⟨hid, hv, fun w hw => ?_⟩
  rcases hw with rfl | hw
  · exact ⟨hgone w hv, by simpa using hnot⟩
  · exact ⟨hgone w (hw.subset List.mem_cons_self), by simpa using hbefore w hw⟩

theorem Passed.not_resumed (hs : s.Sound n) (h : s.Passed key id v)
    (hr : r ∈ resumeAfter id (historyRows (s.history key))) : r.version ≠ v := by
  obtain ⟨hid, hv, hpassed⟩ := h
  rintro rfl
  by_cases hgone : ∀ w ∈ s.history key, w.idOrNull ≠ id
  · rw [resumeAfter_gone (fun r hr => hgone _ (version_mem hr)), if_neg hid] at hr
    have htake : r ∈ (historyRows (s.history key)).takeWhile
        (fun r => !VersionId.olderThan r.version.idOrNull id) := by
      refine (mem_takeWhile_iff (hs.rows_nodup key)).mpr ⟨(List.dropWhile_suffix _).subset hr, ?_, ?_⟩
      · simp [(hpassed r.version (.inl rfl)).2]
      · intro a ha
        simp [(hpassed a.version (.inr (RowBefore.versions ha))).2]
    have hnodup := hs.rows_nodup key
    rw [← List.takeWhile_append_dropWhile (p := fun r => !VersionId.olderThan r.version.idOrNull id)
      (l := historyRows (s.history key)), List.nodup_append] at hnodup
    exact hnodup.2.2 r htake r hr rfl
  · push Not at hgone
    obtain ⟨w, hw, rfl⟩ := hgone
    obtain ⟨r₀, h₀, rfl⟩ := exists_row hw
    have hbefore := (hs.mem_resumeAfter h₀).mp hr
    exact (hpassed r₀.version (.inr hbefore.versions)).1 rfl

theorem Sound.passed_of_before (hs : s.Sound n) (hv : v.idOrNull = VersionId.null)
    (h : [v, w].Sublist (s.history key)) : s.Passed key w.idOrNull v := by
  have hsound := (hs.history_of_pair h).2
  have hw : w.idOrNull ≠ VersionId.null := fun hw => hsound.ids_ne h (hv.trans hw.symm)
  refine ⟨hw, h.subset List.mem_cons_self, fun a ha => ?_⟩
  have hbefore : [a, w].Sublist (s.history key) := by
    rcases ha with rfl | ha
    · exact h
    · exact pair_sublist_trans (hs.history_nodup key) ha h
  exact ⟨hsound.ids_ne hbefore, hsound.not_older_of_before hbefore hw⟩

theorem Passed.before_resumed (hs : s.Sound n) (h : s.Passed key id v)
    (hr : r ∈ resumeAfter id (historyRows (s.history key))) : [v, r.version].Sublist (s.history key) := by
  obtain ⟨r₁, h₁, rfl⟩ := exists_row h.2.1
  obtain ⟨front, hsplit⟩ := resumeAfter_suffix id (historyRows (s.history key))
  have hfront : r₁ ∈ front := by
    rw [← hsplit] at h₁
    exact (List.mem_append.mp h₁).resolve_right (fun h' => h.not_resumed hs h' rfl)
  have hrows : s.RowBefore key r₁ r := by
    rw [RowBefore, ← hsplit]
    exact List.Sublist.append (List.singleton_sublist.mpr hfront) (List.singleton_sublist.mpr hr)
  exact RowBefore.versions hrows

end ObjectStore

end BucketStore
