import BucketStore.Proofs.Engine.Change

namespace BucketStore

def Bucket.without (key id : String) (b : Bucket) : Bucket := { b with store := (b.store.dropVersion key id).2 }

namespace Request

/-- The bucket whose contents a request is to change. -/
def target? : Request → Option String
  | .putVersioning name _ | .putObject name _ _ _ | .deleteObject name _ | .deleteVersion name _ _
  | .createUpload name _ _ _ | .uploadPart name _ _ _ _ | .completeUpload name _ _ _ | .abortUpload name _ _ => some name
  | _ => none

/-- What a request makes of its target, with the version counter before and after. A target that refuses
the request stays as it is. -/
def onTarget (r : Request) (n : UInt64) (b : Bucket) : Bucket × UInt64 :=
  match r with
  | .putVersioning _ status => ((Versioning.parse status >>= b.setVersioning).toOption.getD b, n)
  | .putObject _ key body metadata =>
    ({ b with store := b.store.add (.object (Object.ofBody key (b.versioning.draw n).1 body metadata)) },
      (b.versioning.draw n).2)
  | .deleteObject _ key =>
    match b.versioning.draw n with
    | (none, _) => ({ b with store := (b.store.remove key).2 }, n)
    | (some id, next) => ({ b with store := b.store.add (.marker ⟨key, id⟩) }, next)
  | .deleteVersion _ key id => (b.without key id, n)
  | .createUpload name key uploadId metadata =>
    ({ b with sessions := b.sessions.begin { id := uploadId, bucket := name, key, metadata } }, n)
  | .uploadPart _ key uploadId number body =>
    match b.upload? key uploadId with
    | none => (b, n)
    | some u => ({ b with sessions := b.sessions.update (u.put (Part.ofBody number body)) }, n)
  | .completeUpload _ key uploadId choice =>
    match b.upload? key uploadId with
    | none => (b, n)
    | some u =>
      match if choice = [] then none else (u.choose none choice).toOption with
      | none => (b, n)
      | some parts =>
        ({ b with
          store := b.store.add (.object (u.assemble parts (b.versioning.draw n).1))
          sessions := b.sessions.erase uploadId }, (b.versioning.draw n).2)
  | .abortUpload _ key uploadId =>
    match b.upload? key uploadId with
    | none => (b, n)
    | some _ => ({ b with sessions := b.sessions.erase uploadId }, n)
  | _ => (b, n)

end Request

namespace Engine

variable {e : Engine} {name : String} {b : Bucket} {r : Request}

theorem eq_of_get? {e' : Engine} (hsettings : e.settings = e'.settings) (hnext : e.nextVersion = e'.nextVersion)
    (h : ∀ k, e.buckets.get? k = e'.buckets.get? k) : e = e' := by
  obtain ⟨settings, buckets, next⟩ := e
  obtain ⟨settings', buckets', next'⟩ := e'
  obtain rfl : settings = settings' := hsettings
  obtain rfl : next = next' := hnext
  obtain rfl : buckets = buckets' := Table.eq_of_get? h
  rfl

section Found

variable (e : Engine) (name k : String) (f : UInt64 → Bucket → Bucket × UInt64) (g : Bucket → Bucket)

@[simp] theorem alter_settings : (e.alter name f).settings = e.settings := by
  rw [alter]
  split <;> rfl

theorem alter_nextVersion : (e.alter name f).nextVersion =
    ((e.buckets.get? name).map (fun b => (f e.nextVersion b).2)).getD e.nextVersion := by
  rw [alter]
  cases e.buckets.get? name <;> rfl

theorem get?_alter : (e.alter name f).buckets.get? k =
    if k = name then (e.buckets.get? name).map (fun b => (f e.nextVersion b).1) else e.buckets.get? k := by
  cases hb : e.buckets.get? name with
  | none =>
      rw [alter_of_absent hb, Option.map_none]
      split
      · rename_i hk
        rw [hk, hb]
      · rfl
  | some b => rw [alter_of_bucket hb, setBucket, Table.get?_insert, Option.map_some]

@[simp] theorem update_settings : (e.update name g).settings = e.settings := alter_settings _ _ _

@[simp] theorem update_nextVersion : (e.update name g).nextVersion = e.nextVersion := by
  rw [update, alter_nextVersion]
  cases e.buckets.get? name <;> rfl

theorem get?_update : (e.update name g).buckets.get? k =
    if k = name then (e.buckets.get? name).map g else e.buckets.get? k := get?_alter _ _ _ _

theorem alter_update_of_ne (hk : k ≠ name) : (e.update name g).alter k f = (e.alter k f).update name g := by
  apply eq_of_get?
  · simp only [alter_settings, update_settings]
  · simp only [alter_nextVersion, update_nextVersion, get?_update, if_neg hk]
  · intro j
    simp only [get?_alter, get?_update, update_nextVersion, if_neg hk, if_neg hk.symm]
    by_cases hj : j = k
    · rw [if_pos hj, if_neg (hj ▸ hk), if_pos hj]
    · simp only [if_neg hj]

theorem setBucket_update_of_ne (b : Bucket) (hk : k ≠ name) :
    (e.update name g).setBucket k b = (e.setBucket k b).update name g := by
  refine eq_of_get? (by simp [setBucket]) (by simp [setBucket]) (fun j => ?_)
  simp only [setBucket, Table.get?_insert, get?_update, if_neg hk.symm]
  by_cases hj : j = k
  · rw [if_pos hj, if_neg (hj ▸ hk), if_pos hj]
  · simp only [if_neg hj]

theorem erase_update_of_ne (hk : k ≠ name) :
    ({ e.update name g with buckets := (e.update name g).buckets.erase k } : Engine) =
      ({ e with buckets := e.buckets.erase k } : Engine).update name g := by
  refine eq_of_get? (by simp) (by simp) (fun j => ?_)
  simp only [Table.get?_erase, get?_update, if_neg hk.symm]
  by_cases hj : j = k
  · rw [if_pos hj, if_neg (hj ▸ hk), if_pos hj]
  · simp only [if_neg hj]

end Found

theorem alter_update {f : UInt64 → Bucket → Bucket × UInt64} {g : Bucket → Bucket}
    (h : ∀ b, e.buckets.get? name = some b →
      f e.nextVersion (g b) = (g (f e.nextVersion b).1, (f e.nextVersion b).2)) :
    (e.update name g).alter name f = (e.alter name f).update name g := by
  cases hb : e.buckets.get? name with
  | none => rw [update_of_absent hb, alter_of_absent hb, update_of_absent hb]
  | some b =>
      apply eq_of_get?
      · simp only [alter_settings, update_settings]
      · simp [alter_nextVersion, get?_update, hb, h b hb]
      · intro j
        simp only [get?_alter, get?_update, update_nextVersion, hb, if_true, Option.map_some, h b hb]
        split <;> rfl

theorem session_of_bucket (hb : e.buckets.get? name = some b) (key uploadId : String) :
    e.session name key uploadId = (match b.upload? key uploadId with
      | none => .error (.noSuchUpload uploadId)
      | some u => .ok (b, u)) := by
  cases hu : b.upload? key uploadId with
  | none => simp only [session, hb, hu]
  | some u => simp only [session, hb, hu]

theorem step_createBucket (e : Engine) (name : String) : (e.step (.createBucket name)).2 =
    if e.buckets.contains name then e else e.setBucket name { name } := by
  rw [step, answer, createBucket]
  cases e.buckets.contains name <;> rfl

theorem step_deleteBucket (e : Engine) (name : String) : (e.step (.deleteBucket name)).2 =
    if (e.buckets.get? name).any (fun b => !b.hasLiveObjects) then { e with buckets := e.buckets.erase name } else e := by
  rw [step, answer, deleteBucket, bucket]
  cases e.buckets.get? name with
  | none => rfl
  | some b => cases hl : b.hasLiveObjects <;> simp [bind, Except.bind, hl, Except.map]

theorem step_nextVersionId (e : Engine) :
    (e.step .nextVersionId).2 = { e with nextVersion := e.nextVersion + 1 } := rfl

theorem step_of_absent (hr : r.target? = some name) (hb : e.buckets.get? name = none) : (e.step r).2 = e := by
  rcases step_cases e r with ⟨cause, hstep⟩ | ⟨reply, e', hstep, heffect⟩
  · rw [hstep]
  · cases heffect with
    | read r reply hreads => cases r <;> cases hreads <;> cases hr
    | create | delete | draw | reset => cases hr
    | bucket k c _ _ c' next hc h =>
        have hk : k = name := by cases h <;> exact Option.some.inj hr
        rw [hk, hb] at hc
        cases hc

/-- A request changes its target and the version counter as the target alone says, and nothing else. -/
theorem step_target (e : Engine) (hr : r.target? = some name) : (e.step r).2 = e.alter name r.onTarget := by
  cases hb : e.buckets.get? name with
  | none => rw [step_of_absent hr hb, alter_of_absent hb]
  | some b =>
      have hbucket := bucket_eq_ok.mpr hb
      rw [step]
      cases r with
      | putVersioning k status =>
          cases hr
          rw [answer, putVersioning, hbucket, alter_of_bucket hb, Request.onTarget]
          cases Versioning.parse status with
          | error cause => exact (setBucket_self hb).symm
          | ok target =>
              simp only [bind, Except.bind]
              cases b.setVersioning target with
              | error cause => exact (setBucket_self hb).symm
              | ok b' => rfl
      | putObject k key body metadata =>
          cases hr
          rw [answer, putObject, hbucket, alter_of_bucket hb]
          rfl
      | deleteObject k key =>
          cases hr
          rw [answer, deleteObject, hbucket, alter_of_bucket hb, Request.onTarget]
          simp only [bind, Except.bind]
          rcases b.versioning.draw e.nextVersion with ⟨_ | id, next⟩ <;> rfl
      | deleteVersion k key id =>
          cases hr
          rw [answer, deleteVersion, hbucket, alter_of_bucket hb, Request.onTarget, Bucket.without]
          simp only [bind, Except.bind]
          rcases hdrop : b.store.dropVersion key id with ⟨_ | v, store⟩
          · obtain rfl : store = b.store :=
              (congrArg Prod.snd hdrop).symm.trans (ObjectStore.dropVersion_eq_self (congrArg Prod.fst hdrop))
            exact (setBucket_self hb).symm
          · rfl
      | createUpload k key id metadata =>
          cases hr
          rw [answer, createUpload, hbucket, alter_of_bucket hb]
          rfl
      | uploadPart k key id number body =>
          cases hr
          rw [answer, uploadPart, session_of_bucket hb, alter_of_bucket hb, Request.onTarget]
          cases b.upload? key id with
          | none => exact (setBucket_self hb).symm
          | some u => rfl
      | completeUpload k key id choice =>
          cases hr
          rw [answer, completeUpload, session_of_bucket hb, alter_of_bucket hb, Request.onTarget]
          cases b.upload? key id with
          | none => exact (setBucket_self hb).symm
          | some u =>
              by_cases hchoice : choice = []
              · simp only [bind, Except.bind, if_pos hchoice]
                exact (setBucket_self hb).symm
              · simp only [bind, Except.bind, if_neg hchoice]
                rcases u.choose none choice with (_ | number) | parts
                · exact (setBucket_self hb).symm
                · exact (setBucket_self hb).symm
                · rfl
      | abortUpload k key id =>
          cases hr
          rw [answer, abortUpload, session_of_bucket hb, alter_of_bucket hb, Request.onTarget]
          cases b.upload? key id with
          | none => exact (setBucket_self hb).symm
          | some u => rfl
      | _ => cases hr

def without (e : Engine) (name key id : String) : Engine := e.update name (Bucket.without key id)

theorem step_deleteVersion (e : Engine) (name key id : String) :
    (e.step (.deleteVersion name key id)).2 = e.without name key id := step_target e rfl

end Engine

end BucketStore
