import BucketStore.Proofs.Engine.GeneratedVersions
import BucketStore.Proofs.Engine.Locality
import BucketStore.Proofs.Store.Dropping

namespace BucketStore

theorem Versioning.idOrNull_ne_of_drawn {status : Versioning} {n m : UInt64} {v : Version}
    (hid : v.id? = (status.draw n).1) (hm : m < n) : v.idOrNull ≠ VersionId.ofCounter m := by
  rw [Version.idOrNull, hid]
  cases status with
  | unset | suspended => exact (VersionId.ofCounter_ne_null m).symm
  | enabled => exact fun heq => Std.lt_irrefl (VersionId.ofCounter_injective heq ▸ hm)

namespace Bucket

variable {n m : UInt64} {b : Bucket} {v : Version} {r : Request}

theorem Sound.without_add (hb : b.Sound n) (hm : m < n) (key : String) (hid : v.id? = (b.versioning.draw n).1)
    (hn : n ≤ (b.versioning.draw n).2) :
    (b.without key (VersionId.ofCounter m)).store.add v =
      ((b.store.add v).dropVersion key (VersionId.ofCounter m)).2 :=
  (hb.store.dropVersion_add hb.status hid hn (Versioning.idOrNull_ne_of_drawn hid hm)).symm

@[simp] theorem versioning_without (b : Bucket) (key id : String) : (b.without key id).versioning = b.versioning := rfl

@[simp] theorem upload?_without (b : Bucket) (key id k uploadId : String) :
    (b.without key id).upload? k uploadId = b.upload? k uploadId := rfl

theorem setVersioning_without (b : Bucket) (key : String) (m : UInt64) (target : Versioning) :
    (b.without key (VersionId.ofCounter m)).setVersioning target =
      (b.setVersioning target).map (without key (VersionId.ofCounter m)) := by
  rw [setVersioning, setVersioning, versioning_without]
  split
  · rfl
  · split
    · rfl
    · exact congrArg (fun s => Except.ok { b with versioning := target, store := s })
        (ObjectStore.dropVersion_migrate b.store key m).symm

theorem Sound.onTarget_without (hb : b.Sound n) (hm : m < n) (hn : n ≤ (r.onTarget n b).2) (key : String) :
    r.onTarget n (b.without key (VersionId.ofCounter m)) =
      ((r.onTarget n b).1.without key (VersionId.ofCounter m), (r.onTarget n b).2) := by
  cases r with
  | putVersioning name status =>
      rw [Request.onTarget, Request.onTarget]
      cases Versioning.parse status with
      | error cause => rfl
      | ok target =>
          simp only [bind, Except.bind, setVersioning_without]
          cases b.setVersioning target <;> rfl
  | putObject name k body metadata =>
      have hadd := hb.without_add hm key (v := .object (Object.ofBody k (b.versioning.draw n).1 body metadata)) rfl hn
      exact congrArg (fun s => ({ b with store := s }, (b.versioning.draw n).2)) hadd
  | deleteObject name k =>
      have hremove := ObjectStore.dropVersion_remove b.store key k m
      have hadd := fun id => hb.without_add hm key (v := .marker ⟨k, id⟩)
      rw [Request.onTarget] at hn ⊢
      rw [Request.onTarget, versioning_without]
      rcases hdraw : b.versioning.draw n with ⟨_ | id, next⟩
      · exact congrArg (fun s => ({ b with store := s }, n)) hremove.symm
      · rw [hdraw] at hn hadd
        exact congrArg (fun s => ({ b with store := s }, next)) (hadd id rfl hn)
  | deleteVersion name k id =>
      exact congrArg (fun s => ({ b with store := s }, n)) (hb.store.dropVersion_comm key _ k id)
  | uploadPart name k id number body =>
      rw [Request.onTarget, Request.onTarget, upload?_without]
      cases b.upload? k id <;> rfl
  | completeUpload name k id choice =>
      have hadd := fun u parts => hb.without_add hm key
        (v := .object (Upload.assemble u parts (b.versioning.draw n).1)) rfl
      rw [Request.onTarget] at hn ⊢
      rw [Request.onTarget, upload?_without]
      cases hu : b.upload? k id with
      | none => rfl
      | some u =>
          rw [hu] at hn
          dsimp only at hn ⊢
          cases hparts : (if choice = [] then none else (u.choose none choice).toOption) with
          | none => rfl
          | some parts =>
              rw [hparts] at hn
              exact congrArg
                (fun s => ({ b with store := s, sessions := b.sessions.erase id }, (b.versioning.draw n).2))
                (hadd u parts hn)
  | abortUpload name k id =>
      rw [Request.onTarget, Request.onTarget, upload?_without]
      cases b.upload? k id <;> rfl
  | _ => rfl

end Bucket

namespace Engine

variable {e : Engine} {name key : String} {b : Bucket} {r : Request} {rs : List Request} {m : UInt64}

theorem contains_without (e : Engine) (name key id k : String) :
    (e.without name key id).buckets.contains k = e.buckets.contains k := by
  rw [Table.contains, Table.contains, without, get?_update]
  split
  · rename_i hk
    rw [hk, Option.isSome_map]
  · rfl

/-- Dropping a version commutes with every request but one that removes its bucket. -/
theorem Sound.step_without (hs : e.Sound) (hm : m < e.nextVersion)
    (hn : e.nextVersion ≤ (e.step r).2.nextVersion) (hr : r ≠ .deleteBucket name) (key : String) :
    ((e.without name key (VersionId.ofCounter m)).step r).2 =
      (e.step r).2.without name key (VersionId.ofCounter m) := by
  cases ht : r.target? with
  | some k =>
      rw [step_target e ht] at hn
      rw [step_target _ ht, step_target _ ht]
      by_cases hk : k = name
      · subst hk
        refine alter_update (fun b hb => ?_)
        rw [alter_of_bucket hb] at hn
        exact (hs k b hb).onTarget_without hm hn key
      · exact alter_update_of_ne _ _ _ _ _ hk
  | none =>
      cases r with
      | createBucket k =>
          rw [step_createBucket, step_createBucket, contains_without]
          cases hc : e.buckets.contains k with
          | true => rfl
          | false =>
              rw [without, without]
              by_cases hk : k = name
              · subst hk
                have habsent : e.buckets.get? k = none := by simpa [Table.contains] using hc
                have hnew : Bucket.without key (VersionId.ofCounter m) { name := k } = { name := k } :=
                  congrArg (fun s => ({ name := k, store := s } : Bucket)) (ObjectStore.dropVersion_plain _ key m)
                simp [update_of_absent habsent, update_setBucket, hnew]
              · exact setBucket_update_of_ne _ _ _ _ _ hk
      | deleteBucket k =>
          have hk : k ≠ name := fun hk => hr (by rw [hk])
          rw [step_deleteBucket, step_deleteBucket, without, without, get?_update, if_neg hk]
          split
          · exact erase_update_of_ne _ _ _ _ hk
          · rfl
      | reset =>
          have hempty : e.reset.buckets.get? name = none := rfl
          rw [show (e.step .reset).2 = e.reset from rfl, without, without, update_of_absent hempty]
          exact eq_of_get? (update_settings _ _ _) (update_nextVersion _ _ _) (fun _ => rfl)
      | nextVersionId =>
          rw [step_nextVersionId, step_nextVersionId, without, without]
          exact eq_of_get? (by simp) (by simp) (fun k => by simp only [get?_update])
      | putVersioning | putObject | deleteObject | deleteVersion | createUpload | uploadPart | completeUpload
      | abortUpload => cases ht
      | _ => rw [step_of_reads _ rfl, step_of_reads _ rfl]

theorem Sound.run_without (hs : e.Sound) (hm : m < e.nextVersion) (hrs : e.Unwrapped rs)
    (hkept : ∀ r ∈ rs, r ≠ .deleteBucket name) :
    ((e.without name key (VersionId.ofCounter m)).run rs).2 =
      (e.run rs).2.without name key (VersionId.ofCounter m) := by
  induction rs generalizing e with
  | nil => rfl
  | cons r rs ih =>
      obtain ⟨hr, hkept⟩ := List.forall_mem_cons.mp hkept
      have hstep := hs.step_without hm hrs.1 hr key
      have hrest := ih (hs.step r hrs.1) (Std.lt_of_lt_of_le hm hrs.1) hrs.2 hkept
      rw [run, run]
      dsimp only
      rw [hstep, hrest]

theorem step_write {w : Request} (hb : e.buckets.get? name = some b) (hv : b.versioning = .enabled)
    (hw : (∃ body metadata, w = .putObject name key body metadata) ∨ w = .deleteObject name key) :
    ∃ reply v, (e.step w).1 = .ok reply ∧ w.issued? reply = some (VersionId.ofCounter e.nextVersion) ∧
      v.key = key ∧ v.id? = some (VersionId.ofCounter e.nextVersion) ∧ (e.step w).2 =
        { e.setBucket name { b with store := b.store.add v } with nextVersion := e.nextVersion + 1 } := by
  have hbucket := bucket_eq_ok.mpr hb
  rcases hw with ⟨body, metadata, rfl⟩ | rfl
  · let o := Object.ofBody key (some (VersionId.ofCounter e.nextVersion)) body metadata
    refine ⟨.object o, .object o, ?_, ?_, rfl, rfl, ?_⟩
    · rw [step, answer, putObject, hbucket]
      simp [bind, Except.bind, Except.map, write, hv, Versioning.draw, o]
    · simp [Request.issued?, o, Object.ofBody, VersionId.ofCounter_ne_null]
    · rw [step_target e rfl, alter_of_bucket hb, Request.onTarget, hv]
      rfl
  · refine ⟨.deletion ⟨key, some (VersionId.ofCounter e.nextVersion), true⟩,
      .marker ⟨key, VersionId.ofCounter e.nextVersion⟩, ?_, ?_, rfl, rfl, ?_⟩
    · rw [step, answer, deleteObject, hbucket]
      simp [bind, Except.bind, Except.map, hv, Versioning.draw]
    · simp [Request.issued?, VersionId.ofCounter_ne_null]
    · rw [step_target e rfl, alter_of_bucket hb, Request.onTarget, hv]
      rfl

/-- Dropping that version again leaves nothing of the write but the spent ID. -/
theorem Sound.write_without (hs : e.Sound) (hb : e.buckets.get? name = some b) (hv : b.versioning = .enabled)
    {v : Version} (hkey : v.key = key) (hid : v.id? = some (VersionId.ofCounter e.nextVersion))
    (hn : e.nextVersion ≤ e.nextVersion + 1) :
    ({ e.setBucket name { b with store := b.store.add v } with nextVersion := e.nextVersion + 1 } : Engine).without
      name key (VersionId.ofCounter e.nextVersion) = { e with nextVersion := e.nextVersion + 1 } := by
  have hversioned : b.store.isVersioned = true := by
    rw [← Bool.not_eq_false, ← (hs name b hb).status, hv]
    exact nofun
  have hdropped := (hs name b hb).store.dropVersion_drawn hversioned hid hn
  rw [hkey] at hdropped
  refine eq_of_get? (by simp [without, setBucket]) (by simp [without]) (fun k => ?_)
  simp only [without, get?_update, setBucket, Table.get?_insert, if_true, Option.map_some, Bucket.without, hdropped]
  split
  · rename_i hk
    rw [hk, hb]
  · rfl

/-- A version-targeted delete cancels its write: whatever came in between, short of removing the bucket, has gone
as if the write had only spent its version ID. -/
theorem deleteVersion_cancels_write {w : Request} (he : ReachableUnwrapped e) (hv : e.versioning? name = some .enabled)
    (hw : (∃ body metadata, w = .putObject name key body metadata) ∨ w = .deleteObject name key)
    (hrs : e.Unwrapped (w :: rs)) (hkept : ∀ r ∈ rs, r ≠ .deleteBucket name) :
    ∃ reply id, (e.step w).1 = .ok reply ∧ w.issued? reply = some id ∧
      (e.step .nextVersionId).1 = .ok (.versionId id) ∧
      (e.run (w :: rs ++ [.deleteVersion name key id])).2 = (e.run (.nextVersionId :: rs)).2 ∧
      (e.run [w, .deleteVersion name key id]).2.buckets = e.buckets := by
  obtain ⟨b, hb, hvb⟩ := Option.map_eq_some_iff.mp hv
  obtain ⟨reply, v, hreply, hissued, hkey, hid, hafter⟩ := step_write hb hvb hw
  have hn : e.nextVersion ≤ e.nextVersion + 1 := by simpa only [hafter] using hrs.1
  have hspent : (e.step w).2.without name key (VersionId.ofCounter e.nextVersion) = (e.step .nextVersionId).2 := by
    rw [hafter, he.sound.write_without hb hvb hkey hid hn, step_nextVersionId]
  refine ⟨reply, _, hreply, hissued, rfl, ?_, ?_⟩
  · have hlt : e.nextVersion < (e.step w).2.nextVersion := by
      rw [hafter]
      exact Std.lt_of_le_of_ne hn (by simp)
    calc (e.run (w :: rs ++ [.deleteVersion name key (VersionId.ofCounter e.nextVersion)])).2
        = (((e.step w).2.run rs).2.step (.deleteVersion name key (VersionId.ofCounter e.nextVersion))).2 :=
          run_append e (w :: rs) _
      _ = ((e.step w).2.run rs).2.without name key (VersionId.ofCounter e.nextVersion) :=
          step_deleteVersion _ _ _ _
      _ = (((e.step w).2.without name key (VersionId.ofCounter e.nextVersion)).run rs).2 :=
          ((he.sound.step w hrs.1).run_without hlt hrs.2 hkept).symm
      _ = ((e.step .nextVersionId).2.run rs).2 := by rw [hspent]
  · have hcancelled := (step_deleteVersion (e.step w).2 name key _).trans hspent
    have hbuckets := congrArg Engine.buckets hcancelled
    exact hbuckets

def enabledBucket : Engine :=
  ((fresh {} 1).run [.createBucket "b", .putObject "b" "k" [1] {}, .putVersioning "b" "Enabled"]).2

def writesBetween : List Request :=
  [.putVersioning "b" "Suspended", .putObject "b" "k" [3] {}, .createUpload "b" "k" "u" {},
    .deleteVersion "b" "k" "null", .putVersioning "b" "Enabled", .deleteObject "b" "k",
    .deleteVersion "b" "k" (VersionId.ofCounter 2)]

theorem deleteVersion_cancels_put : ∃ reply id, (enabledBucket.step (.putObject "b" "k" [2] {})).1 = .ok reply ∧
    (Request.putObject "b" "k" [2] {}).issued? reply = some id ∧
    (enabledBucket.run (.putObject "b" "k" [2] {} :: writesBetween ++ [.deleteVersion "b" "k" id])).2 =
      (enabledBucket.run (.nextVersionId :: writesBetween)).2 ∧
    (enabledBucket.run [.putObject "b" "k" [2] {}, .deleteVersion "b" "k" id]).2.buckets = enabledBucket.buckets := by
  have hreachable : ReachableUnwrapped enabledBucket := ReachableUnwrapped.run (.fresh {} 1) (by decide)
  have hv : enabledBucket.versioning? "b" = some .enabled := by decide
  have hrs : enabledBucket.Unwrapped (.putObject "b" "k" [2] {} :: writesBetween) := by decide
  have hkept : ∀ r ∈ writesBetween, r ≠ .deleteBucket "b" := by decide
  obtain ⟨reply, id, hreply, hissued, _, hcancelled, hrestored⟩ :=
    deleteVersion_cancels_write hreachable hv (.inl ⟨[2], {}, rfl⟩) hrs hkept
  exact ⟨reply, id, hreply, hissued, hcancelled, hrestored⟩

end Engine

end BucketStore
