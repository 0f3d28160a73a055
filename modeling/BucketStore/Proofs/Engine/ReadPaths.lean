import BucketStore.Proofs.Engine.GeneratedVersions
import BucketStore.Proofs.Engine.ObjectReading
import BucketStore.Proofs.Store.Agreement

namespace BucketStore

open Listing

theorem Bucket.hasLiveObjects_iff_rows (b : Bucket) :
    b.hasLiveObjects = true ↔ (b.store.liveItems "" "").filterMap Item.value? ≠ [] := by
  rw [← List.length_pos_iff, ObjectStore.length_live_rows, hasLiveObjects, ObjectStore.isEmpty]
  simp [Nat.pos_iff_ne_zero]

namespace Engine

variable {e : Engine} {name key id : String} {b : Bucket} {o : Object}

/-- All reads of a bucket tell the same of it, where `objects` and `versions` are its listings without
markers, by stem and delimiter, that no cap cuts short. -/
structure ReadsAgree (e : Engine) (name : String) (objects : Option String → Option String → Page Head)
    (versions : Option String → Option String → VersionPage) : Prop where
  objects_whole : ∀ stem delimiter, (objects stem delimiter).truncated = false ∧
    ∀ cap, (objects stem delimiter).items.length ≤ cap →
      e.listObjects name stem delimiter none (some cap) = .ok (objects stem delimiter)
  versions_whole : ∀ stem delimiter, (versions stem delimiter).truncated = false ∧
    ∀ cap, (versions stem delimiter).items.length ≤ cap →
      e.listVersions name stem delimiter none none (some cap) = .ok (versions stem delimiter)
  found : ∀ key, (∃ o, e.getObject name key = .ok o) ↔ ∃ h ∈ (objects none none).rows, h.key = key
  newest : ∀ key o, e.getObject name key = .ok o →
    (objects none none).rows.filter (fun h => h.key = key) = [o.toHead] ∧
    (e.step (.headObject name key)).1 = .ok (.head o.toHead) ∧
    (versions none none).rows.filter (fun r => r.version.key = key ∧ r.isLatest) = [⟨.object o, true⟩]
  version_found : ∀ key id o, e.getVersion name key id = .ok o ↔
    ∃ r ∈ (versions none none).rows, r.version = .object o ∧ o.key = key ∧ r.version.idOrNull = id
  version_head : ∀ key id, (e.step (.headVersion name key id)).1 =
    (e.getVersion name key id).map (fun o => .head o.toHead)
  marker_refused : ∀ key id, e.getVersion name key id = .error (.methodNotAllowed key id) ↔
    ∃ r ∈ (versions none none).rows, r.version.isMarker = true ∧ r.version.key = key ∧ r.version.idOrNull = id
  missing_refused : ∀ key id, e.getVersion name key id = .error (.noSuchVersion key id) ↔
    ∀ r ∈ (versions none none).rows, r.version.key = key → r.version.idOrNull ≠ id
  objects_latest : ∀ stem delimiter, (objects stem delimiter).rows =
    ((versions stem delimiter).rows.filter VersionRow.isLatest).filterMap VersionRow.head?
  commonPrefixes_subset : ∀ stem delimiter,
    (objects stem delimiter).commonPrefixes ⊆ (versions stem delimiter).commonPrefixes
  counted : ∃ s, e.stats name = .ok s ∧ s.size = (objects none none).rows.length ∧
    (s.live = true ↔ (objects none none).rows ≠ [])
  deletable : (e.step (.deleteBucket name)).1 =
    if (objects none none).rows = [] then .ok .done else .error (.bucketNotEmpty name)

theorem getObject_eq_ok_iff (hb : e.buckets.get? name = some b) :
    e.getObject name key = .ok o ↔ b.store.get? key = some o := by
  rw [getObject_eq_ok]
  simp [hb]

section ById

variable (hb : e.buckets.get? name = some b) (hs : b.store.Sound e.nextVersion)

include hb hs

theorem getVersion_eq (key id : String) : e.getVersion name key id =
    ((b.store.version? key id).map (Version.answer key id)).getD (.error (.noSuchVersion key id)) := by
  rw [getVersion, bucket_eq_ok.mpr hb]
  simp only [bind, Except.bind, hs.getVersion?_eq, hs.isMarker_eq]
  rcases b.store.version? key id with _ | _ | _ <;> rfl

theorem getVersion_eq_ok_iff : e.getVersion name key id = .ok o ↔ b.store.version? key id = some (.object o) := by
  rw [getVersion_eq hb hs]
  rcases b.store.version? key id with _ | _ | _ <;> simp [Version.answer]

theorem getVersion_eq_methodNotAllowed_iff : e.getVersion name key id = .error (.methodNotAllowed key id) ↔
    ∃ v, b.store.version? key id = some v ∧ v.isMarker = true := by
  rw [getVersion_eq hb hs]
  rcases b.store.version? key id with _ | _ | _ <;> simp [Version.answer, Version.isMarker, Version.marker?]

theorem getVersion_eq_missing_iff : e.getVersion name key id = .error (.noSuchVersion key id) ↔
    b.store.version? key id = none := by
  rw [getVersion_eq hb hs]
  rcases b.store.version? key id with _ | _ | _ <;> simp [Version.answer]

end ById

/-- Whichever way a bucket is read, by key, by version ID, through listings or by its liveness, the answers are
about the same versions. -/
theorem read_paths_agree (he : ReachableUnwrapped e) (hb : e.buckets.contains name = true) :
    ∃ objects versions, e.ReadsAgree name objects versions := by
  obtain ⟨b, hb⟩ := Option.isSome_iff_exists.mp hb
  have hs := (he.sound name b hb).store
  have hfiled := (he.reachable.filed name b hb).2
  refine ⟨fun stem delimiter => ⟨b.store.liveItems (stem.getD "") (delimiter.getD ""), false⟩,
    fun stem delimiter => ⟨⟨b.store.versionItems (stem.getD "") (delimiter.getD ""), false⟩, none⟩, ?_⟩
  constructor
  case objects_whole =>
    refine fun stem delimiter => ⟨rfl, fun cap hcap => ?_⟩
    rw [listObjects, bucket_eq_ok.mpr hb]
    exact congrArg Except.ok (ObjectStore.listObjects_whole hcap)
  case versions_whole =>
    refine fun stem delimiter => ⟨rfl, fun cap hcap => ?_⟩
    rw [listVersions, bucket_eq_ok.mpr hb]
    exact congrArg Except.ok (ObjectStore.listVersions_whole hcap)
  case found =>
    intro key
    simp only [getObject_eq_ok_iff hb]
    exact (ObjectStore.exists_live_row hfiled).symm
  case newest =>
    intro key o ho
    have hget := (getObject_eq_ok_iff hb).mp ho
    refine ⟨?_, ?_, ?_⟩
    · refine (ObjectStore.live_rows_of_key hfiled key).trans ?_
      rw [hget]
      rfl
    · rw [step, answer, ho]
      rfl
    · refine (ObjectStore.latest_row_of_key hfiled key).trans ?_
      rw [ObjectStore.get?_eq_newest] at hget
      obtain ⟨v, hv, hobject⟩ := Option.bind_eq_some_iff.mp hget
      rw [hv]
      cases v with
      | marker m => cases hobject
      | object p => cases hobject; rfl
  case version_found =>
    intro key id o
    rw [getVersion_eq_ok_iff hb hs, hs.version?_listed hfiled]
    constructor
    · rintro ⟨⟨r, hr, hv⟩, rfl, rfl⟩
      exact ⟨r, hr, hv, rfl, by rw [hv]⟩
    · rintro ⟨r, hr, hv, hkey, rfl⟩
      exact ⟨⟨r, hr, hv⟩, hkey, by rw [hv]⟩
  case version_head =>
    intro key id
    rw [step, answer]
    cases e.getVersion name key id <;> rfl
  case marker_refused =>
    intro key id
    simp only [getVersion_eq_methodNotAllowed_iff hb hs, hs.version?_listed hfiled]
    constructor
    · rintro ⟨_, ⟨⟨r, hr, rfl⟩, hkey, hid⟩, hmarker⟩
      exact ⟨r, hr, hmarker, hkey, hid⟩
    · rintro ⟨r, hr, hmarker, hkey, hid⟩
      exact ⟨r.version, ⟨⟨r, hr, rfl⟩, hkey, hid⟩, hmarker⟩
  case missing_refused =>
    intro key id
    exact (getVersion_eq_missing_iff hb hs).trans (ObjectStore.version?_not_listed hfiled)
  case objects_latest => exact fun stem delimiter => ObjectStore.live_rows _ _ _
  case commonPrefixes_subset => exact fun stem delimiter => ObjectStore.live_commonPrefixes _ _ _
  case counted =>
    have hlength := ObjectStore.length_live_rows b.store
    refine ⟨_, by rw [stats, bucket_eq_ok.mpr hb]; rfl, hlength.symm, ?_⟩
    exact b.hasLiveObjects_iff_rows
  case deletable =>
    have hlive := b.hasLiveObjects_iff_rows
    rw [step, answer, deleteBucket, bucket_eq_ok.mpr hb]
    simp only [bind, Except.bind]
    cases hl : b.hasLiveObjects with
    | false =>
        have hnil : (b.store.liveItems "" "").filterMap Item.value? = [] :=
          by_contra (fun h => absurd (hlive.mpr h) (by simp [hl]))
        exact (if_pos hnil).symm
    | true => exact (if_neg (hlive.mp hl)).symm

def deletedAndLive : List Request :=
  [.createBucket "b", .putObject "b" "k" [1] {}, .putVersioning "b" "Enabled", .putObject "b" "k" [2] {},
    .deleteObject "b" "k", .putObject "b" "l" [3] {}]

theorem reads_of_deletedAndLive : ∃ objects versions,
    ((fresh {} 1).run deletedAndLive).2.ReadsAgree "b" objects versions ∧
    (∀ h ∈ (objects none none).rows, h.key ≠ "k") ∧
    (∃ r ∈ (versions none none).rows, r.version.isMarker = true ∧ r.version.key = "k" ∧
      r.version.idOrNull = VersionId.ofCounter 2) ∧
    (∃ r ∈ (versions none none).rows, r.version = .object (Object.ofBody "k" (some VersionId.null) [1] {})) ∧
    (objects none none).rows.filter (fun h => h.key = "l") =
      [(Object.ofBody "l" (some (VersionId.ofCounter 3)) [3] {}).toHead] := by
  have hreachable : ReachableUnwrapped ((fresh {} 1).run deletedAndLive).2 :=
    ReachableUnwrapped.run (.fresh {} 1) (by decide)
  have hbucket : ((fresh {} 1).run deletedAndLive).2.buckets.contains "b" = true := rfl
  obtain ⟨objects, versions, h⟩ := read_paths_agree hreachable hbucket
  refine ⟨objects, versions, h, fun head hhead hkey => ?_, (h.marker_refused "k" (VersionId.ofCounter 2)).mp (by decide),
    ?_, (h.newest "l" _ rfl).1⟩
  · obtain ⟨o, ho⟩ := (h.found "k").mpr ⟨head, hhead, hkey⟩
    exact absurd ((show _ = Except.error (.noSuchKey "b" "k") by decide).symm.trans ho) nofun
  · obtain ⟨r, hr, hv, _⟩ := (h.version_found "k" VersionId.null _).mp rfl
    exact ⟨r, hr, hv⟩

end Engine

end BucketStore
