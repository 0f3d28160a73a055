import BucketStore.Proofs.Engine.Commuting
import BucketStore.Proofs.Engine.Content
import BucketStore.Proofs.Store.Writing

namespace BucketStore

namespace Sessions

variable {s : Sessions} {id : String} {u : Upload}

theorem erase_erase (s : Sessions) (id : String) : (s.erase id).erase id = s.erase id := by
  rw [erase, erase, List.filter_filter]
  simp only [Bool.and_self]

theorem erase_update (s : Sessions) (u : Upload) : (s.update u).erase u.id = s.erase u.id := by
  have hid : ∀ w : Upload, (if w.id = u.id then u else w).id = w.id := by
    intro w
    split
    · rename_i hw
      exact hw.symm
    · rfl
  refine congrArg Sessions.mk ?_
  rw [update, List.filter_map, Function.comp_def]
  simp only [hid]
  refine (List.map_congr_left (fun w hw => ?_)).trans (List.map_id _)
  rw [if_neg (of_decide_eq_true (List.mem_filter.mp hw).2)]
  rfl

end Sessions

namespace Bucket

variable {name key : String} {n n' : UInt64} {b b' : Bucket} {r : Request} {reply : Reply}

/-- What a request that is addressed to a key leaves as it is in its bucket. -/
structure KeyFrame (r : Request) (key : String) (b b' : Bucket) : Prop where
  name : b'.name = b.name
  versioning : b'.versioning = b.versioning
  kind : b'.store.isVersioned = b.store.isVersioned
  histories : ∀ k ≠ key, b'.store.history k = b.store.history k
  sessions : r.upload? = none → b'.sessions = b.sessions
  uploads : ∀ id, r.upload? = some id → b'.sessions.erase id = b.sessions.erase id

theorem KeyFrame.refl (r : Request) (key : String) (b : Bucket) : KeyFrame r key b b :=
  ⟨rfl, rfl, rfl, fun _ _ => rfl, fun _ => rfl, fun _ _ => rfl⟩

theorem Effect.keyFrame (h : Effect name n b r reply b' n') (hr : r.address? = some (name, key)) :
    KeyFrame r key b b' := by
  have edited : ∀ d : KeyEdit, (b.store.edit key d).isVersioned = b.store.isVersioned ∧
      ∀ k ≠ key, (b.store.edit key d).history k = b.store.history k :=
    fun d => ⟨ObjectStore.isVersioned_edit key d _, fun k hk => ObjectStore.history_edit_of_ne hk⟩
  have added : ∀ v : Version, v.key = key → (b.store.add v).isVersioned = b.store.isVersioned ∧
      ∀ k ≠ key, (b.store.add v).history k = b.store.history k := by
    rintro v rfl
    rw [ObjectStore.add_eq_edit]
    exact edited (.add v)
  cases h with
  | keep | configure | start => cases hr
  | put key body metadata =>
      cases hr
      obtain ⟨hkind, hothers⟩ := added (.object (Object.ofBody key (b.versioning.draw n).1 body metadata)) rfl
      exact ⟨rfl, rfl, hkind, hothers, fun _ => rfl, fun _ _ => rfl⟩
  | mark key id next hdraw =>
      cases hr
      obtain ⟨hkind, hothers⟩ := added (.marker ⟨key, id⟩) rfl
      exact ⟨rfl, rfl, hkind, hothers, fun _ => rfl, fun _ _ => rfl⟩
  | forget key hunset =>
      cases hr
      rw [ObjectStore.remove_eq_edit]
      obtain ⟨hkind, hothers⟩ := edited .remove
      exact ⟨rfl, rfl, hkind, hothers, fun _ => rfl, fun _ _ => rfl⟩
  | drop key id d =>
      cases hr
      rw [ObjectStore.dropVersion_eq_edit]
      obtain ⟨hkind, hothers⟩ := edited (.drop id)
      exact ⟨rfl, rfl, hkind, hothers, fun _ => rfl, fun _ _ => rfl⟩
  | complete key uploadId choice u parts hu hne hparts =>
      cases hr
      obtain ⟨hkind, hothers⟩ :=
        added (.object (u.assemble parts (b.versioning.draw n).1)) (upload?_eq_some_iff.mp hu).2
      refine ⟨rfl, rfl, hkind, hothers, nofun, ?_⟩
      rintro _ ⟨rfl⟩
      exact Sessions.erase_erase _ _
  | upload key uploadId u number body hu =>
      cases hr
      refine ⟨rfl, rfl, rfl, fun _ _ => rfl, nofun, ?_⟩
      rintro _ ⟨rfl⟩
      have hid : u.id = uploadId := Sessions.id_of_find? (upload?_eq_some_iff.mp hu).1
      rw [← hid]
      exact Sessions.erase_update _ (u.put (Part.ofBody number body))
  | abort key uploadId u hu =>
      cases hr
      refine ⟨rfl, rfl, rfl, fun _ _ => rfl, nofun, ?_⟩
      rintro _ ⟨rfl⟩
      exact Sessions.erase_erase _ _

structure Unmigrated (b : Bucket) : Prop where
  status : b.versioning = .unset ↔ b.store.isVersioned = false
  ids : b.store.isVersioned = false → ∀ key, ∀ v ∈ b.store.history key, v.id? = none

theorem Change.unmigrated (h : Change name n b b' n') (hb : b.Unmigrated) : b'.Unmigrated := by
  refine ⟨h.matched hb.status, ?_⟩
  have added : ∀ v : Version, v.id? = (b.versioning.draw n).1 → (b.store.add v).isVersioned = false →
      ∀ key, ∀ w ∈ (b.store.add v).history key, w.id? = none := by
    intro v hid hplain key w hw
    rw [ObjectStore.isVersioned_add] at hplain
    rcases ObjectStore.mem_history_add hw with ⟨rfl, _⟩ | hw
    · rw [hid, hb.status.mpr hplain]
      rfl
    · exact hb.ids hplain key w hw
  cases h with
  | configure =>
      intro hplain
      rw [ObjectStore.isVersioned_migrate] at hplain
      cases hplain
  | put key body metadata => exact added (.object (Object.ofBody key _ body metadata)) rfl
  | complete key uploadId choice u parts hu hne hparts => exact added (.object (u.assemble parts _)) rfl
  | mark key id _ hdraw => exact added (.marker ⟨key, id⟩) (by rw [hdraw]; rfl)
  | forget key =>
      intro hplain k w hw
      rw [ObjectStore.isVersioned_remove] at hplain
      exact hb.ids hplain k w ((ObjectStore.history_remove_sublist _ key k).subset hw)
  | drop key id =>
      intro hplain k w hw
      rw [ObjectStore.isVersioned_dropVersion] at hplain
      exact hb.ids hplain k w ((ObjectStore.history_dropVersion_sublist _ key id k).subset hw)
  | start | upload | abort => exact hb.ids

theorem Unmigrated.history_migrate (hb : b.Unmigrated) (hplain : b.store.isVersioned = false) (key : String) :
    b.store.migrate.history key = (b.store.history key).map Version.identified := by
  have hids := hb.ids hplain key
  cases hs : b.store with
  | versioned s => rw [hs] at hplain; cases hplain
  | plain s =>
      rw [hs] at hids
      simp only [ObjectStore.migrate, ObjectStore.history, VersionedStore.history, Table.get?_map] at hids ⊢
      cases ho : s.get? key with
      | none => rfl
      | some o =>
          have hnone : o.versionId = none := hids (.object o) (by simp [ho])
          simp [ObjectStore.toNullVersion, Version.identified, Object.identified, hnone]

end Bucket

namespace Engine

variable {e e' : Engine} {name key k : String} {b : Bucket} {r : Request}

def Unmigrated (e : Engine) : Prop := ∀ name b, e.buckets.get? name = some b → b.Unmigrated

theorem Unmigrated.step (r : Request) (h : e.Unmigrated) : (e.step r).2.Unmigrated :=
  (step_change e r).forall_buckets (P := fun _ _ b => b.Unmigrated) (R := fun _ _ => True) trivial (fun _ hb => hb)
    (fun _ _ => ⟨⟨fun _ => rfl, fun _ => rfl⟩, fun _ _ _ hv => by cases hv⟩) (fun hc _ hb => hc.unmigrated hb) h

theorem Reachable.unmigrated (h : Reachable e) : e.Unmigrated := by
  induction h with
  | fresh settings first => intro name b hb; rw [fresh_empty] at hb; cases hb
  | step r _ ih => exact ih.step r

theorem get?_step_of_other (hr : r.bucket? = some name) (hk : k ≠ name) :
    (e.step r).2.buckets.get? k = e.buckets.get? k := by
  rcases step_cases e r with ⟨cause, hstep⟩ | ⟨reply, e', hstep, heffect⟩
  · rw [hstep]
  · rw [hstep]
    cases heffect with
    | read => rfl
    | draw | reset => cases hr
    | create =>
        cases hr
        exact get?_setBucket_of_ne e _ hk
    | delete =>
        cases hr
        rw [Table.get?_erase, if_neg hk]
    | bucket named c _ _ c' next hc h =>
        have hname : named = name := by cases h <;> exact Option.some.inj hr
        exact get?_setBucket_of_ne e c' (hname ▸ hk)

theorem settings_step (e : Engine) (r : Request) : (e.step r).2.settings = e.settings := by
  have h := step_change e r
  generalize (e.step r).2 = e' at h
  cases h <;> rfl

theorem keyFrame_step (hr : r.address? = some (name, key)) (hb : e.buckets.get? name = some b) :
    ∃ b', (e.step r).2.buckets.get? name = some b' ∧ b.KeyFrame r key b' := by
  rcases step_cases e r with ⟨cause, hstep⟩ | ⟨reply, e', hstep, heffect⟩
  · exact ⟨b, by rw [hstep, hb], .refl r key b⟩
  · rw [hstep]
    cases heffect with
    | read _ _ hreads => cases r <;> cases hr <;> cases hreads
    | create | delete | draw | reset => cases hr
    | bucket named c _ _ c' next hc h =>
        obtain rfl : named = name := by cases h <;> cases hr <;> rfl
        obtain rfl : c = b := Option.some.inj (hc.symm.trans hb)
        exact ⟨c', get?_setBucket_self e named c', h.keyFrame hr⟩

/-- A part is put into the upload that it is addressed to, and all else stays. -/
def PartFrame (key uploadId : String) (number : UInt32) (u w : Upload) : Prop :=
  w = u ∨ u.id = uploadId ∧ u.key = key ∧ w.toUploadSummary = u.toUploadSummary ∧
    ∀ n ≠ number, w.part? n = u.part? n

theorem step_uploadPart (he : e.SessionsFiled) (hb : e.buckets.get? name = some b) (key uploadId : String)
    (number : UInt32) (body : List UInt8) :
    ∃ sessions : Sessions, (e.step (.uploadPart name key uploadId number body)).2 =
        e.setBucket name { b with sessions } ∧
      List.Forall₂ (PartFrame key uploadId number) b.sessions.uploads sessions.uploads := by
  have hfiled := he name b hb
  have hnothing : List.Forall₂ (PartFrame key uploadId number) b.sessions.uploads b.sessions.uploads :=
    List.forall₂_same.mpr (fun _ _ => .inl rfl)
  rw [step_target e rfl, alter_of_bucket hb, Request.onTarget]
  cases hu : b.upload? key uploadId with
  | none => exact ⟨b.sessions, rfl, hnothing⟩
  | some u =>
      refine ⟨b.sessions.update (u.put (Part.ofBody number body)), rfl, ?_⟩
      obtain ⟨hfind, hkey⟩ := Bucket.upload?_eq_some_iff.mp hu
      have hid : u.id = uploadId := Sessions.id_of_find? hfind
      refine List.forall₂_map_right_iff.mpr (List.forall₂_same.mpr (fun w hw => ?_))
      by_cases hwu : w.id = u.id
      · have hsame : w = u := by
          have hthere := (hfiled.uploads w hw).1
          rw [hwu, hid, hfind] at hthere
          exact (Option.some.inj hthere).symm
        rw [if_pos (show w.id = (u.put (Part.ofBody number body)).id from hwu), hsame]
        exact .inr ⟨hid, hkey, rfl, fun n hn =>
          (Upload.part?_put u (Part.ofBody number body) n).trans (if_neg hn)⟩
      · exact .inl (if_neg hwu)

theorem step_putVersioning (hb : e.buckets.get? name = some b) (status : String) :
    (e.step (.putVersioning name status)).2 = e ∨ ∃ target, target ≠ .unset ∧
      (e.step (.putVersioning name status)).2 =
        e.setBucket name { b with versioning := target, store := b.store.migrate } := by
  rcases step_cases e (.putVersioning name status) with ⟨cause, hstep⟩ | ⟨reply, e', hstep, heffect⟩
  · exact .inl (by rw [hstep])
  · rw [hstep]
    cases heffect with
    | read _ _ hreads => cases hreads
    | bucket _ c _ _ c' next hc h =>
        cases h with
        | keep => exact .inl (setBucket_self hc)
        | configure _ target hparse hne ht =>
            obtain rfl : c = b := Option.some.inj (hc.symm.trans hb)
            exact .inr ⟨target, ht, rfl⟩

/-- What requests leave alone in an engine, and which of them may change places. -/
structure Isolated (e : Engine) : Prop where
  buckets : ∀ r name, r.bucket? = some name → (e.step r).2.settings = e.settings ∧
    ∀ k ≠ name, (e.step r).2.buckets.get? k = e.buckets.get? k
  keys : ∀ r name key b, r.address? = some (name, key) → e.buckets.get? name = some b →
    ∃ b', (e.step r).2.buckets.get? name = some b' ∧ b.KeyFrame r key b'
  parts : ∀ name key uploadId number body b, e.buckets.get? name = some b → ∃ sessions : Sessions,
    (e.step (.uploadPart name key uploadId number body)).2 = e.setBucket name { b with sessions } ∧
      List.Forall₂ (PartFrame key uploadId number) b.sessions.uploads sessions.uploads
  status : ∀ name status b, e.buckets.get? name = some b → b.versioning ≠ .unset →
    ∃ versioning, (e.step (.putVersioning name status)).2 = e.setBucket name { b with versioning }
  migration : ∀ name status b, e.buckets.get? name = some b → b.versioning = .unset →
    (e.step (.putVersioning name status)).2 = e ∨ ∃ versioning store,
      (e.step (.putVersioning name status)).2 = e.setBucket name { b with versioning, store } ∧
      store.isVersioned = true ∧ ∀ key, (∀ v ∈ b.store.history key, v.id? = none) ∧
        store.history key = (b.store.history key).map Version.identified
  order : ∀ r r' name key name' key', r.address? = some (name, key) → r'.address? = some (name', key') →
    (name, key) ≠ (name', key') → e.Still name → e.Still name' →
      (e.run [r', r]).1 = (e.run [r, r']).1.reverse ∧ (e.run [r', r]).2 = (e.run [r, r']).2

/-- Requests are confined to the bucket, the key and the upload that they name, and where versioning is not
enabled, those for different keys may come in either order. -/
theorem Reachable.isolated (he : Reachable e) : e.Isolated := by
  constructor
  case buckets => exact fun r name hr => ⟨settings_step e r, fun k hk => get?_step_of_other hr hk⟩
  case keys => exact fun r name key b hr hb => keyFrame_step hr hb
  case parts =>
    exact fun name key uploadId number body b hb => step_uploadPart he.sessions_filed hb key uploadId number body
  case status =>
    intro name status b hb hset
    have hversioned : b.store.isVersioned = true := by
      rw [← Bool.not_eq_false]
      exact mt (he.unmigrated name b hb).status.mpr hset
    have hmigrate : b.store.migrate = b.store := by
      cases hs : b.store with
      | plain s => rw [hs] at hversioned; cases hversioned
      | versioned s => rfl
    rcases step_putVersioning hb status with hsame | ⟨target, _, hstep⟩
    · exact ⟨b.versioning, hsame.trans (setBucket_self hb).symm⟩
    · exact ⟨target, by rw [hstep, hmigrate]⟩
  case migration =>
    intro name status b hb hunset
    have hkinds := he.unmigrated name b hb
    have hplain := hkinds.status.mp hunset
    rcases step_putVersioning hb status with hsame | ⟨target, _, hstep⟩
    · exact .inl hsame
    · exact .inr ⟨target, b.store.migrate, hstep, ObjectStore.isVersioned_migrate _,
        fun key => ⟨hkinds.ids hplain key, hkinds.history_migrate hplain key⟩⟩
  case order =>
    intro r r' name key name' key' hr hr' hne hs hs'
    have hfirst := reply_after hr hr' hne hs
    have hsecond := reply_after hr' hr hne.symm hs'
    refine ⟨?_, (step_comm hr hr' hne hs hs').symm⟩
    simp only [Engine.run, hfirst, hsecond, List.reverse_cons, List.reverse_nil, List.nil_append, List.singleton_append]

def suspendedUpload : Engine :=
  ((fresh {} 1).run [.createBucket "b", .putObject "b" "k" [1] {}, .putVersioning "b" "Suspended",
    .createUpload "b" "l" "u" {}, .uploadPart "b" "l" "u" 1 [3]]).2

def dropping : Request := .deleteVersion "b" "k" "null"

def completing : Request := .completeUpload "b" "l" "u" [⟨1, EntityTag.ofBody [3]⟩]

theorem suspendedUpload_any_order :
    (suspendedUpload.run [dropping, completing]).1.map Except.toBool = [true, true] ∧
    (suspendedUpload.run [completing, dropping]).1 = (suspendedUpload.run [dropping, completing]).1.reverse ∧
    (suspendedUpload.run [completing, dropping]).2 = (suspendedUpload.run [dropping, completing]).2 := by
  have hisolated : suspendedUpload.Isolated := Reachable.isolated ((Reachable.fresh {} 1).run _)
  obtain ⟨b, hb, hstatus⟩ : ∃ b, suspendedUpload.buckets.get? "b" = some b ∧ b.versioning = .suspended :=
    ⟨_, rfl, by decide⟩
  have hstill : suspendedUpload.Still "b" := by
    intro c hc
    obtain rfl : b = c := Option.some.inj (hb.symm.trans hc)
    rw [hstatus]
    decide
  have hdone : (suspendedUpload.run [dropping, completing]).1.map Except.toBool = [true, true] := by decide +kernel
  exact ⟨hdone, hisolated.order dropping completing "b" "k" "b" "l" rfl rfl (by decide) hstill hstill⟩

end Engine

end BucketStore
