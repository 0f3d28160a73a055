import BucketStore.Proofs.Engine.ReadPaths
import BucketStore.Proofs.Engine.Representation
import BucketStore.Proofs.Store.Draining

namespace BucketStore

def Version.removal (name : String) (v : Version) : Request := .deleteVersion name v.key v.idOrNull

def Version.removed (v : Version) : Reply := .deletion ⟨v.key, some v.idOrNull, v.isMarker⟩

namespace Engine

open Listing

variable {e : Engine} {name : String} {n : UInt64} {b : Bucket} {v : Version} {cap : Nat} {order : List Version}

theorem step_removal (hb : e.buckets.get? name = some b) (hs : b.store.Sound n)
    (hfiled : ∀ key, ∀ v ∈ b.store.history key, v.key = key) (hv : v ∈ b.store.versions) :
    ∃ store : ObjectStore, e.step (v.removal name) = (.ok v.removed, e.setBucket name { b with store }) ∧
      store.Sound n ∧ (∀ key, ∀ w ∈ store.history key, w.key = key) ∧
      store.versions = b.store.versions.filter (· ≠ v) := by
  obtain ⟨hfound, hrest⟩ := hs.drop_listed hfiled hv
  refine ⟨_, ?_, hs.dropVersion v.key v.idOrNull, fun key w hw => ?_, hrest⟩
  · rw [step, Version.removal, answer, deleteVersion, bucket_eq_ok.mpr hb]
    rcases hdrop : b.store.dropVersion v.key v.idOrNull with ⟨found, store⟩
    rw [hdrop] at hfound
    obtain rfl : found = some v := hfound
    simp only [bind, Except.bind, hdrop]
    rfl
  · exact hfiled key w ((ObjectStore.history_dropVersion_sublist _ _ _ _).subset hw)

theorem run_removals (hb : e.buckets.get? name = some b) (hs : b.store.Sound n)
    (hfiled : ∀ key, ∀ v ∈ b.store.history key, v.key = key) (hnodup : order.Nodup)
    (horder : order ⊆ b.store.versions) :
    ∃ store : ObjectStore, e.run (order.map (Version.removal name)) =
        (order.map (fun v => .ok v.removed), e.setBucket name { b with store }) ∧
      store.versions = b.store.versions.filter (· ∉ order) := by
  induction order generalizing e b with
  | nil => exact ⟨b.store, by rw [setBucket_self hb]; rfl, by simp⟩
  | cons v rest ih =>
      obtain ⟨hv, hnodup⟩ := List.nodup_cons.mp hnodup
      obtain ⟨hmem, horder⟩ := List.cons_subset.mp horder
      obtain ⟨store, hstep, hs', hfiled', hversions⟩ := step_removal hb hs hfiled hmem
      have hleft : rest ⊆ store.versions := fun w hw =>
        hversions ▸ List.mem_filter.mpr ⟨horder hw, decide_eq_true (fun heq => hv (heq ▸ hw))⟩
      have hb' := get?_setBucket_self e name { b with store }
      obtain ⟨last, hrun, hlast⟩ := ih hb' hs' hfiled' hnodup hleft
      refine ⟨last, ?_, ?_⟩
      · rw [List.map_cons, run, hstep]
        dsimp only
        rw [hrun, setBucket_setBucket]
        rfl
      · rw [hlast, hversions, List.filter_filter]
        refine List.filter_congr (fun w _ => ?_)
        rw [← Bool.decide_and, decide_eq_decide, List.mem_cons, not_or, and_comm]

theorem listVersions_all (hb : e.buckets.get? name = some b) (hcap : b.store.versions.length ≤ cap) :
    e.listVersions name none none none none (some cap) = .ok ⟨⟨b.store.versionItems "" "", false⟩, none⟩ := by
  have hitems : (b.store.versionItems "" "").length ≤ cap := (ObjectStore.length_versionItems _).trans_le hcap
  rw [listVersions, bucket_eq_ok.mpr hb]
  exact congrArg Except.ok (ObjectStore.listVersions_whole hitems)

/-- A bucket is emptied through its own listing: in whatever order the listed versions are removed, each removal
takes out the version that it names and nothing else, and the bucket can be deleted in the end. -/
theorem drained_through_listing (he : ReachableUnwrapped e) (hb : e.buckets.get? name = some b)
    (hcap : b.store.versions.length ≤ cap) :
    ∃ page, e.listVersions name none none none none (some cap) = .ok page ∧ page.truncated = false ∧
      page.rows.length = b.store.versions.length ∧
      ∀ order : List Version, order.Perm (page.rows.map VersionRow.version) →
        (e.run (order.map (Version.removal name))).1 = order.map (fun v => .ok v.removed) ∧
        (∀ before after, order = before ++ after → ∃ store left,
          (e.run (before.map (Version.removal name))).2 = e.setBucket name { b with store } ∧
          (e.setBucket name { b with store }).listVersions name none none none none (some cap) = .ok left ∧
          left.truncated = false ∧
          left.rows.map VersionRow.version = (page.rows.map VersionRow.version).filter (· ∉ before)) ∧
        (e.run (order.map (Version.removal name))).2.listVersions name none none none none (some cap) =
          .ok ⟨⟨[], false⟩, none⟩ ∧
        ((e.run (order.map (Version.removal name))).2.step (.deleteBucket name)).1 = .ok .done := by
  have hs := (he.sound name b hb).store
  have hfiled := (he.reachable.filed name b hb).2
  have hrows := ObjectStore.map_version_rows b.store
  refine ⟨_, listVersions_all hb hcap, rfl, ?_, fun order horder => ?_⟩
  · rw [← hrows, List.length_map]
    rfl
  have hperm : order.Perm b.store.versions := hrows ▸ horder
  have hnodup : order.Nodup := hperm.nodup_iff.mpr (ObjectStore.versions_nodup hfiled hs.history_nodup)
  have hfound := fun store : ObjectStore => get?_setBucket_self e name { b with store }
  obtain ⟨drained, hrun, hdrained⟩ := run_removals hb hs hfiled hnodup hperm.subset
  have hnone : drained.versions = [] := by
    rw [hdrained, List.filter_eq_nil_iff]
    intro v hv
    simpa using hperm.mem_iff.mpr hv
  refine ⟨by rw [hrun], ?_, ?_, ?_⟩
  · rintro before after rfl
    have hbefore : before ⊆ b.store.versions := fun v hv => hperm.subset (List.mem_append_left _ hv)
    obtain ⟨store, hrun, hstore⟩ := run_removals hb hs hfiled (List.nodup_append.mp hnodup).1 hbefore
    have hless : store.versions.length ≤ cap := by
      rw [hstore]
      exact (List.length_filter_le _ _).trans hcap
    refine ⟨store, _, by rw [hrun], listVersions_all (hfound store) hless, rfl, ?_⟩
    have hrows' := ObjectStore.map_version_rows store
    rw [hstore, ← hrows] at hrows'
    exact hrows'
  · have hitems : drained.versionItems "" "" = [] := by
      rw [← List.length_eq_zero_iff, ObjectStore.length_versionItems, hnone, List.length_nil]
    rw [hrun, listVersions_all (hfound drained) (by rw [hnone]; exact Nat.zero_le cap), hitems]
  · have hdead : ({ b with store := drained } : Bucket).hasLiveObjects = false := by
      rw [Bucket.hasLiveObjects, ObjectStore.isEmpty_of_no_versions hnone]
      rfl
    rw [hrun, step, answer, deleteBucket, bucket_eq_ok.mpr (hfound drained)]
    simp only [bind, Except.bind, hdead]
    rfl

theorem populated_drained :
    ∃ page, ((fresh {} 1).run populating).2.listVersions "b" none none none none (some 4) = .ok page ∧
      (((fresh {} 1).run populating).2.run
        ((page.rows.map VersionRow.version).reverse.map (Version.removal "b"))).1 =
          [.ok (.deletion ⟨"l", some (VersionId.ofCounter 3), false⟩), .ok (.deletion ⟨"k", some "null", false⟩),
            .ok (.deletion ⟨"k", some (VersionId.ofCounter 1), false⟩),
            .ok (.deletion ⟨"k", some (VersionId.ofCounter 2), true⟩)] ∧
      ((((fresh {} 1).run populating).2.run
        ((page.rows.map VersionRow.version).reverse.map (Version.removal "b"))).2.step (.deleteBucket "b")).1 =
          .ok .done := by
  have hreachable : ReachableUnwrapped ((fresh {} 1).run populating).2 :=
    ReachableUnwrapped.run (.fresh {} 1) (by decide)
  obtain ⟨b, hb, hcap⟩ : ∃ b, ((fresh {} 1).run populating).2.buckets.get? "b" = some b ∧
      b.store.versions.length ≤ 4 := ⟨_, rfl, by decide⟩
  obtain ⟨shown, hshown, hremoved⟩ : ∃ page,
      ((fresh {} 1).run populating).2.listVersions "b" none none none none (some 4) = .ok page ∧
      (page.rows.map VersionRow.version).reverse.map Version.removed =
        [.deletion ⟨"l", some (VersionId.ofCounter 3), false⟩, .deletion ⟨"k", some "null", false⟩,
          .deletion ⟨"k", some (VersionId.ofCounter 1), false⟩, .deletion ⟨"k", some (VersionId.ofCounter 2), true⟩] :=
    ⟨_, rfl, by decide⟩
  obtain ⟨page, hpage, _, _, hdrained⟩ := drained_through_listing hreachable hb hcap
  obtain rfl : shown = page := Except.ok.inj (hshown.symm.trans hpage)
  obtain ⟨hreplies, _, _, hdeleted⟩ := hdrained _ (List.reverse_perm _)
  have hanswers := congrArg (List.map (Except.ok (ε := StoreError))) hremoved
  rw [List.map_map] at hanswers
  exact ⟨shown, hshown, hreplies.trans hanswers, hdeleted⟩

end Engine

end BucketStore
