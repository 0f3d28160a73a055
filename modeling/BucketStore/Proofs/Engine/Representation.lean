import BucketStore.Proofs.Engine.GeneratedVersions
import BucketStore.Proofs.Store.Sessions

namespace BucketStore

namespace History

def generatedIds (h : History) : List String := (h.map Version.idOrNull).filter (· ≠ VersionId.null)

theorem mem_generatedIds {h : History} {id : String} :
    id ∈ h.generatedIds ↔ ∃ v ∈ h, v.id? = some id ∧ id ≠ VersionId.null := by
  rw [generatedIds, List.mem_filter, List.mem_map, decide_eq_true_eq]
  constructor
  · rintro ⟨⟨v, hv, rfl⟩, hne⟩
    refine ⟨v, hv, ?_, hne⟩
    cases hid : v.id? with
    | none => exact absurd (by rw [Version.idOrNull, hid]; rfl) hne
    | some id => rw [Version.idOrNull, hid, Option.getD_some]
  · rintro ⟨v, hv, hid, hne⟩
    exact ⟨⟨v, hv, by rw [Version.idOrNull, hid, Option.getD_some]⟩, hne⟩

end History

namespace Bucket

variable {name key uploadId : String} {n n' : UInt64} {b b' : Bucket} {u : Upload}

theorem Change.sessions_filed (h : Change name n b b' n') (hb : b.sessions.Filed name) :
    b'.sessions.Filed name := by
  cases h with
  | configure | put | mark | forget | drop => exact hb
  | complete _ uploadId | abort _ uploadId => exact hb.erase uploadId
  | start key uploadId metadata => exact hb.begin .begun
  | upload key uploadId u number body hu =>
      have hfiled := (hb.uploads u (List.mem_of_find?_eq_some (upload?_eq_some_iff.mp hu).1)).2
      exact hb.update (hfiled.put number body)

end Bucket

namespace Engine

variable {e : Engine} {name name' key key' id : String} {v w : Version}

/-- The generated IDs of all versions of all buckets. -/
def generatedIds (e : Engine) : List String :=
  e.buckets.entries.flatMap (fun p => p.2.store.histories.flatMap (fun q => q.2.generatedIds))

def SessionsFiled (e : Engine) : Prop := ∀ name b, e.buckets.get? name = some b → b.sessions.Filed name

theorem SessionsFiled.step (r : Request) (h : e.SessionsFiled) : (e.step r).2.SessionsFiled :=
  (step_change e r).forall_buckets (P := fun name _ b => b.sessions.Filed name) (R := fun _ _ => True) trivial
    (fun _ hb => hb) (fun _ _ => .of List.nodup_nil (fun _ hu => by cases hu))
    (fun hc _ hb => hc.sessions_filed hb) h

theorem Reachable.sessions_filed (h : Reachable e) : e.SessionsFiled := by
  induction h with
  | fresh settings first => intro name b hb; rw [fresh_empty] at hb; cases hb
  | step r _ ih => exact ih.step r

theorem ReachableUnwrapped.eq_of_id (h : ReachableUnwrapped e) (hv : v ∈ e.history name key)
    (hw : w ∈ e.history name' key') (hidv : v.id? = some id) (hidw : w.id? = some id)
    (hne : id ≠ VersionId.null) : name' = name ∧ key' = key ∧ w = v := by
  obtain ⟨settings, first, rs, hrs, rfl⟩ := h.exists_run
  -- the two writes issued one ID, so they are one write
  obtain ⟨m, hm, hmv⟩ := exists_reported hrs hv hidv hne
  obtain ⟨m', hm', hmw⟩ := exists_reported hrs hw hidw hne
  obtain rfl := eq_of_issued hrs hm hm' (issued?_of_reported hmv hidv hne) (issued?_of_reported hmw hidw hne)
  exact eq_of_reported hmv hmw

theorem mem_ids {p : String × Bucket} (hp : p ∈ e.buckets.entries) {q : String × History}
    (hq : q ∈ p.2.store.histories) (hid : id ∈ q.2.generatedIds) :
    id ≠ VersionId.null ∧ ∃ v ∈ e.history p.1 q.1, v.id? = some id := by
  obtain ⟨v, hv, hidv, hne⟩ := History.mem_generatedIds.mp hid
  refine ⟨hne, v, ?_, hidv⟩
  rwa [history_of_bucket (Table.mem_entries.mp hp), ObjectStore.history_of_mem hq]

theorem ReachableUnwrapped.generatedIds_nodup (h : ReachableUnwrapped e) : e.generatedIds.Nodup := by
  refine List.nodup_flatMap.mpr ⟨fun p hp => List.nodup_flatMap.mpr ⟨fun q hq => ?_, ?_⟩, ?_⟩
  · have hdistinct := (h.sound p.1 p.2 (Table.mem_entries.mp hp)).store.ids_distinct q.1
    rw [ObjectStore.history_of_mem hq] at hdistinct
    exact (List.pairwise_map.mpr hdistinct).filter _
  · refine p.2.store.histories_ascending.imp_of_mem (fun {q q'} hq hq' hlt id hid hid' => ?_)
    obtain ⟨hne, v, hv, hidv⟩ := mem_ids hp hq hid
    obtain ⟨_, w, hw, hidw⟩ := mem_ids hp hq' hid'
    exact hlt.ne (h.eq_of_id hw hv hidw hidv hne).2.1
  · refine e.buckets.ascending.imp_of_mem (fun {p p'} hp hp' hlt id hid hid' => ?_)
    obtain ⟨q, hq, hid⟩ := List.mem_flatMap.mp hid
    obtain ⟨q', hq', hid'⟩ := List.mem_flatMap.mp hid'
    obtain ⟨hne, v, hv, hidv⟩ := mem_ids hp hq hid
    obtain ⟨_, w, hw, hidw⟩ := mem_ids hp' hq' hid'
    exact hlt.ne (h.eq_of_id hw hv hidw hidv hne).1

structure Represented (e : Engine) : Prop where
  filed : e.Filed
  sound : e.Sound
  sessions : e.SessionsFiled
  ids : e.generatedIds.Nodup

/-- Buckets, histories and uploads are as they should be after every run, and a bucket that was configured
is not unset again before it is removed. -/
theorem representation_invariant (h : ReachableUnwrapped e) : e.Represented ∧
    ∀ name rs, e.Configured name → (∀ m ∈ e.moments rs, m.removes name = false) →
      (e.run rs).2.Configured name :=
  ⟨⟨h.reachable.filed, h.sound, h.reachable.sessions_filed, h.generatedIds_nodup⟩,
    fun _ _ hconf hkept => (configured_of_mem hconf hkept).1⟩

def populating : List Request :=
  [.createBucket "a", .putObject "a" "k" [] {}, .createBucket "b", .putObject "b" "k" [1] {},
    .putVersioning "b" "Enabled", .putObject "b" "k" [2] {}, .deleteObject "b" "k",
    .createUpload "b" "l" "u" {}, .uploadPart "b" "l" "u" 1 [3], .putObject "b" "l" [4] {}]

theorem representation_of_populated :
    ((fresh {} 1).run populating).2.generatedIds =
      ["00000000000000000002", "00000000000000000001", "00000000000000000003"] ∧
    ((fresh {} 1).run populating).2.Represented ∧
    (((fresh {} 1).run populating).2.run [.putVersioning "b" "Unset", .deleteBucket "b"]).2.Configured "b" := by
  have hrs : (fresh {} 1).Unwrapped populating := by decide
  have hconf : ((fresh {} 1).run populating).2.Configured "b" := ⟨_, rfl, by decide⟩
  obtain ⟨hrepresented, hkept⟩ := representation_invariant ((ReachableUnwrapped.fresh {} 1).run hrs)
  exact ⟨by decide, hrepresented, hkept "b" _ hconf (by decide)⟩

end Engine

end BucketStore
