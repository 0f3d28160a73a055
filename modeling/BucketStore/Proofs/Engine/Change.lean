import BucketStore.Engine.Request
import BucketStore.Proofs.Store.Histories

namespace BucketStore

/-- What one request does to the bucket called `name` that it is about, with the version counter
before and after. -/
inductive Bucket.Change (name : String) (n : UInt64) (b : Bucket) : Bucket → UInt64 → Prop
  | configure (target : Versioning) (hne : b.versioning ≠ target) (ht : target ≠ .unset) :
      Change name n b { b with versioning := target, store := b.store.migrate } n
  | put (key body metadata) :
      Change name n b
        { b with store := b.store.add (.object (Object.ofBody key (b.versioning.draw n).1 body metadata)) }
        (b.versioning.draw n).2
  | complete (key uploadId choice u parts) (hu : b.upload? key uploadId = some u) (hne : choice ≠ [])
      (hparts : u.choose none choice = .ok parts) :
      Change name n b
        { b with
          store := b.store.add (.object (u.assemble parts (b.versioning.draw n).1))
          sessions := b.sessions.erase uploadId }
        (b.versioning.draw n).2
  | mark (key id next) (hdraw : b.versioning.draw n = (some id, next)) :
      Change name n b { b with store := b.store.add (.marker ⟨key, id⟩) } next
  | forget (key) (hunset : b.versioning = .unset) :
      Change name n b { b with store := (b.store.remove key).2 } n
  | drop (key id) : Change name n b { b with store := (b.store.dropVersion key id).2 } n
  | start (key uploadId metadata) :
      Change name n b
        { b with sessions := b.sessions.begin { id := uploadId, bucket := name, key, metadata } } n
  | upload (key uploadId u number body) (hu : b.upload? key uploadId = some u) :
      Change name n b { b with sessions := b.sessions.update (u.put (Part.ofBody number body)) } n
  | abort (key uploadId u) (hu : b.upload? key uploadId = some u) :
      Change name n b { b with sessions := b.sessions.erase uploadId } n

inductive Bucket.Effect (name : String) (n : UInt64) (b : Bucket) : Request → Reply → Bucket → UInt64 → Prop
  | keep (status) (hparse : Versioning.parse status = .ok b.versioning) :
      Effect name n b (.putVersioning name status) .done b n
  | configure (status target) (hparse : Versioning.parse status = .ok target) (hne : b.versioning ≠ target)
      (ht : target ≠ .unset) :
      Effect name n b (.putVersioning name status) .done
        { b with versioning := target, store := b.store.migrate } n
  | put (key body metadata) :
      Effect name n b (.putObject name key body metadata)
        (.object (Object.ofBody key (b.versioning.draw n).1 body metadata))
        { b with store := b.store.add (.object (Object.ofBody key (b.versioning.draw n).1 body metadata)) }
        (b.versioning.draw n).2
  | complete (key uploadId choice u parts) (hu : b.upload? key uploadId = some u) (hne : choice ≠ [])
      (hparts : u.choose none choice = .ok parts) :
      Effect name n b (.completeUpload name key uploadId choice)
        (.object (u.assemble parts (b.versioning.draw n).1))
        { b with
          store := b.store.add (.object (u.assemble parts (b.versioning.draw n).1))
          sessions := b.sessions.erase uploadId }
        (b.versioning.draw n).2
  | mark (key id next) (hdraw : b.versioning.draw n = (some id, next)) :
      Effect name n b (.deleteObject name key) (.deletion ⟨key, some id, true⟩)
        { b with store := b.store.add (.marker ⟨key, id⟩) } next
  | forget (key) (hunset : b.versioning = .unset) :
      Effect name n b (.deleteObject name key) (.deletion (.placeholder key))
        { b with store := (b.store.remove key).2 } n
  | drop (key id d) :
      Effect name n b (.deleteVersion name key id) (.deletion d)
        { b with store := (b.store.dropVersion key id).2 } n
  | start (key uploadId metadata) :
      Effect name n b (.createUpload name key uploadId metadata) (.upload ⟨uploadId, name, key, metadata⟩)
        { b with sessions := b.sessions.begin { id := uploadId, bucket := name, key, metadata } } n
  | upload (key uploadId u number body) (hu : b.upload? key uploadId = some u) :
      Effect name n b (.uploadPart name key uploadId number body) (.part (Part.ofBody number body))
        { b with sessions := b.sessions.update (u.put (Part.ofBody number body)) } n
  | abort (key uploadId u) (hu : b.upload? key uploadId = some u) :
      Effect name n b (.abortUpload name key uploadId) .done
        { b with sessions := b.sessions.erase uploadId } n

def Request.reads : Request → Bool
  | .createBucket _ | .deleteBucket _ | .putVersioning .. | .putObject .. | .deleteObject .. | .deleteVersion ..
  | .createUpload .. | .uploadPart .. | .completeUpload .. | .abortUpload .. | .reset | .nextVersionId => false
  | _ => true

namespace Engine

inductive Change (e : Engine) : Engine → Prop
  | same : Change e e
  | create (name) (habsent : e.buckets.get? name = none) : Change e (e.setBucket name { name })
  | delete (name b) (hb : e.buckets.get? name = some b) (hdead : b.hasLiveObjects = false) :
      Change e { e with buckets := e.buckets.erase name }
  | bucket (name b b' next) (hb : e.buckets.get? name = some b)
      (h : Bucket.Change name e.nextVersion b b' next) :
      Change e { e.setBucket name b' with nextVersion := next }
  | draw : Change e { e with nextVersion := e.nextVersion + 1 }
  | reset : Change e e.reset

/-- What a request that succeeds does to the engine, with its answer. -/
inductive Effect (e : Engine) : Request → Reply → Engine → Prop
  | read (r reply) (hr : r.reads = true) : Effect e r reply e
  | create (name) (habsent : e.buckets.get? name = none) :
      Effect e (.createBucket name) .done (e.setBucket name { name })
  | delete (name b) (hb : e.buckets.get? name = some b) (hdead : b.hasLiveObjects = false) :
      Effect e (.deleteBucket name) .done { e with buckets := e.buckets.erase name }
  | bucket (name b r reply b' next) (hb : e.buckets.get? name = some b)
      (h : Bucket.Effect name e.nextVersion b r reply b' next) :
      Effect e r reply { e.setBucket name b' with nextVersion := next }
  | draw :
      Effect e .nextVersionId (.versionId (VersionId.ofCounter e.nextVersion))
        { e with nextVersion := e.nextVersion + 1 }
  | reset : Effect e .reset .done e.reset

theorem bind_eq_ok {ε α β : Type} {x : Except ε α} {f : α → Except ε β} {b : β} :
    (x >>= f) = .ok b ↔ ∃ a, x = .ok a ∧ f a = .ok b := by
  cases x <;> simp [bind, Except.bind]

theorem map_eq_ok {ε α β : Type} {x : Except ε α} {f : α → β} {b : β} :
    x.map f = .ok b ↔ ∃ a, x = .ok a ∧ f a = b := by
  cases x <;> simp [Except.map]

theorem bucket_eq_ok {e : Engine} {name : String} {b : Bucket} :
    e.bucket name = .ok b ↔ e.buckets.get? name = some b := by
  rw [bucket]
  cases e.buckets.get? name <;> simp

theorem session_eq_ok {e : Engine} {name key uploadId : String} {b : Bucket} {u : Upload} :
    e.session name key uploadId = .ok (b, u) ↔
      e.buckets.get? name = some b ∧ b.upload? key uploadId = some u := by
  rw [session]
  cases hb : e.buckets.get? name with
  | none => simp
  | some c =>
      simp only [Option.some_inj]
      cases hu : c.upload? key uploadId with
      | none => simp only [reduceCtorEq, false_iff]; rintro ⟨rfl, h⟩; rw [hu] at h; cases h
      | some w =>
          simp only [Except.ok.injEq, Prod.mk.injEq]
          exact and_congr_right (fun h => by rw [← h, hu, Option.some_inj])

theorem setBucket_self {e : Engine} {name : String} {b : Bucket} (h : e.buckets.get? name = some b) :
    e.setBucket name b = e := by
  rw [setBucket, Table.insert_eq_self h]

theorem get?_setBucket_self (e : Engine) (name : String) (b : Bucket) :
    (e.setBucket name b).buckets.get? name = some b := by
  rw [setBucket, Table.get?_insert, if_pos rfl]

theorem get?_setBucket_of_ne (e : Engine) {k name : String} (b : Bucket) (h : k ≠ name) :
    (e.setBucket name b).buckets.get? k = e.buckets.get? k := by
  rw [setBucket, Table.get?_insert, if_neg h]

theorem setBucket_setBucket (e : Engine) (name : String) (b c : Bucket) :
    (e.setBucket name b).setBucket name c = e.setBucket name c := by
  simp only [setBucket, Table.insert_insert]

def alter (e : Engine) (name : String) (f : UInt64 → Bucket → Bucket × UInt64) : Engine :=
  match e.buckets.get? name with
  | some b => { e.setBucket name (f e.nextVersion b).1 with nextVersion := (f e.nextVersion b).2 }
  | none => e

def update (e : Engine) (name : String) (f : Bucket → Bucket) : Engine := e.alter name (fun n b => (f b, n))

section Altered

variable {e : Engine} {name : String} {b : Bucket}

theorem alter_of_bucket (hb : e.buckets.get? name = some b) (f : UInt64 → Bucket → Bucket × UInt64) :
    e.alter name f = { e.setBucket name (f e.nextVersion b).1 with nextVersion := (f e.nextVersion b).2 } := by
  rw [alter, hb]

theorem alter_of_absent (hb : e.buckets.get? name = none) (f : UInt64 → Bucket → Bucket × UInt64) :
    e.alter name f = e := by
  rw [alter, hb]

theorem update_of_bucket (hb : e.buckets.get? name = some b) (f : Bucket → Bucket) :
    e.update name f = e.setBucket name (f b) := alter_of_bucket hb _

theorem update_of_absent (hb : e.buckets.get? name = none) (f : Bucket → Bucket) : e.update name f = e :=
  alter_of_absent hb _

theorem update_setBucket (e : Engine) (name : String) (b : Bucket) (f : Bucket → Bucket) :
    (e.setBucket name b).update name f = e.setBucket name (f b) := by
  rw [update_of_bucket (get?_setBucket_self e name b), setBucket_setBucket]

end Altered

theorem createBucket_effect {e e' : Engine} {name : String} (h : e.createBucket name = .ok e') :
    Effect e (.createBucket name) .done e' := by
  rw [createBucket] at h
  split at h
  · cases h
  · rename_i hc
    cases h
    exact .create name (by simpa [Table.contains] using hc)

theorem deleteBucket_effect {e e' : Engine} {name : String} (h : e.deleteBucket name = .ok e') :
    Effect e (.deleteBucket name) .done e' := by
  obtain ⟨b, hb, h⟩ := bind_eq_ok.mp h
  split at h
  · cases h
  · rename_i hl
    cases h
    exact .delete name b (bucket_eq_ok.mp hb) (by simpa using hl)

theorem putVersioning_effect {e e' : Engine} {name status : String}
    (h : e.putVersioning name status = .ok e') : Effect e (.putVersioning name status) .done e' := by
  obtain ⟨target, hparse, h⟩ := bind_eq_ok.mp h
  obtain ⟨b, hb, h⟩ := bind_eq_ok.mp h
  obtain ⟨b', hb', h⟩ := bind_eq_ok.mp h
  cases h
  rw [Bucket.setVersioning] at hb'
  split at hb'
  · rename_i heq
    cases hb'
    exact .bucket name b _ _ b _ (bucket_eq_ok.mp hb) (.keep status (heq ▸ hparse))
  · rename_i hne
    split at hb'
    · cases hb'
    · rename_i ht
      cases hb'
      exact .bucket name b _ _ _ _ (bucket_eq_ok.mp hb) (.configure status target hparse hne ht)

theorem putObject_effect {e e' : Engine} {name key : String} {body : List UInt8} {metadata : Metadata}
    {o : Object} (h : e.putObject name key body metadata = .ok (o, e')) :
    Effect e (.putObject name key body metadata) (.object o) e' := by
  obtain ⟨b, hb, h⟩ := bind_eq_ok.mp h
  cases h
  exact .bucket name b _ _ _ _ (bucket_eq_ok.mp hb) (.put key body metadata)

theorem deleteObject_effect {e e' : Engine} {name key : String} {d : Deletion}
    (h : e.deleteObject name key = .ok (d, e')) : Effect e (.deleteObject name key) (.deletion d) e' := by
  obtain ⟨b, hb, h⟩ := bind_eq_ok.mp h
  have hget := bucket_eq_ok.mp hb
  split at h
  · rename_i next hdraw
    cases h
    have hunset : b.versioning = .unset := by
      cases hv : b.versioning <;> simp [hv, Versioning.draw] at hdraw ⊢
    exact .bucket name b _ _ _ _ hget (.forget key hunset)
  · rename_i id next hdraw
    cases h
    exact .bucket name b _ _ _ _ hget (.mark key id next hdraw)

theorem deleteVersion_effect {e e' : Engine} {name key id : String} {d : Deletion}
    (h : e.deleteVersion name key id = .ok (d, e')) :
    Effect e (.deleteVersion name key id) (.deletion d) e' := by
  obtain ⟨b, hb, h⟩ := bind_eq_ok.mp h
  have hget := bucket_eq_ok.mp hb
  have hdropped := Effect.bucket name b _ (.deletion d) _ _ hget (.drop key id d)
  split at h
  · rename_i store hdrop
    cases h
    rw [ObjectStore.dropVersion_eq_self (by rw [hdrop])] at hdropped
    rwa [show ({ b with store := b.store } : Bucket) = b from rfl, setBucket_self hget] at hdropped
  · rename_i v store hdrop
    cases h
    rwa [hdrop] at hdropped

theorem createUpload_effect {e e' : Engine} {name key uploadId : String} {metadata : Metadata}
    {u : UploadSummary} (h : e.createUpload name key uploadId metadata = .ok (u, e')) :
    Effect e (.createUpload name key uploadId metadata) (.upload u) e' := by
  obtain ⟨b, hb, h⟩ := bind_eq_ok.mp h
  cases h
  exact .bucket name b _ _ _ _ (bucket_eq_ok.mp hb) (.start key uploadId metadata)

theorem uploadPart_effect {e e' : Engine} {name key uploadId : String} {number : UInt32}
    {body : List UInt8} {p : Part} (h : e.uploadPart name key uploadId number body = .ok (p, e')) :
    Effect e (.uploadPart name key uploadId number body) (.part p) e' := by
  obtain ⟨⟨b, u⟩, hs, h⟩ := bind_eq_ok.mp h
  cases h
  obtain ⟨hget, hu⟩ := session_eq_ok.mp hs
  exact .bucket name b _ _ _ _ hget (.upload key uploadId u number body hu)

theorem completeUpload_effect {e e' : Engine} {name key uploadId : String} {choice : List PartChoice}
    {o : Object} (h : e.completeUpload name key uploadId choice = .ok (o, e')) :
    Effect e (.completeUpload name key uploadId choice) (.object o) e' := by
  obtain ⟨⟨b, u⟩, hs, h⟩ := bind_eq_ok.mp h
  obtain ⟨hget, hu⟩ := session_eq_ok.mp hs
  dsimp only at h
  split at h
  · cases h
  · rename_i hne
    split at h
    · cases h
    · cases h
    · rename_i parts hparts
      cases h
      exact .bucket name b _ _ _ _ hget (.complete key uploadId choice u parts hu hne hparts)

theorem abortUpload_effect {e e' : Engine} {name key uploadId : String}
    (h : e.abortUpload name key uploadId = .ok e') :
    Effect e (.abortUpload name key uploadId) .done e' := by
  obtain ⟨⟨b, u⟩, hs, h⟩ := bind_eq_ok.mp h
  cases h
  obtain ⟨hget, hu⟩ := session_eq_ok.mp hs
  exact .bucket name b _ _ _ _ hget (.abort key uploadId u hu)

theorem answer_effect {e e' : Engine} {r : Request} {reply : Reply} (h : e.answer r = .ok (reply, e')) :
    Effect e r reply e' := by
  cases r with
  | createBucket bucket =>
      obtain ⟨_, h, heq⟩ := map_eq_ok.mp h; cases heq; exact createBucket_effect h
  | deleteBucket bucket =>
      obtain ⟨_, h, heq⟩ := map_eq_ok.mp h; cases heq; exact deleteBucket_effect h
  | putVersioning bucket status =>
      obtain ⟨_, h, heq⟩ := map_eq_ok.mp h; cases heq; exact putVersioning_effect h
  | putObject bucket key body metadata =>
      obtain ⟨⟨_, _⟩, h, heq⟩ := map_eq_ok.mp h; cases heq; exact putObject_effect h
  | deleteObject bucket key =>
      obtain ⟨⟨_, _⟩, h, heq⟩ := map_eq_ok.mp h; cases heq; exact deleteObject_effect h
  | deleteVersion bucket key id =>
      obtain ⟨⟨_, _⟩, h, heq⟩ := map_eq_ok.mp h; cases heq; exact deleteVersion_effect h
  | createUpload bucket key id metadata =>
      obtain ⟨⟨_, _⟩, h, heq⟩ := map_eq_ok.mp h; cases heq; exact createUpload_effect h
  | uploadPart bucket key id number body =>
      obtain ⟨⟨_, _⟩, h, heq⟩ := map_eq_ok.mp h; cases heq; exact uploadPart_effect h
  | completeUpload bucket key id choice =>
      obtain ⟨⟨_, _⟩, h, heq⟩ := map_eq_ok.mp h; cases heq; exact completeUpload_effect h
  | abortUpload bucket key id =>
      obtain ⟨_, h, heq⟩ := map_eq_ok.mp h; cases heq; exact abortUpload_effect h
  | reset => cases h; exact .reset
  | nextVersionId => cases h; exact .draw
  | bucketExists | listBuckets | listBucketsPage | describe | settings => cases h; exact .read _ _ rfl
  | getVersioning | getObject | getVersion | headObject | headVersion | listObjects | listByToken
  | listVersions | listParts | listUploads | stats =>
      obtain ⟨_, _, heq⟩ := map_eq_ok.mp h; cases heq; exact .read _ _ rfl

theorem Effect.change {e e' : Engine} {r : Request} {reply : Reply} (h : Effect e r reply e') :
    Change e e' := by
  cases h with
  | read => exact .same
  | create name habsent => exact .create name habsent
  | delete name b hb hdead => exact .delete name b hb hdead
  | draw => exact .draw
  | reset => exact .reset
  | bucket name b _ _ b' next hb h =>
      cases h with
      | keep =>
          rw [setBucket_self hb]
          exact .same
      | configure _ target _ hne ht => exact .bucket name b _ _ hb (.configure target hne ht)
      | put key body metadata => exact .bucket name b _ _ hb (.put key body metadata)
      | complete key uploadId choice u parts hu hne hparts =>
          exact .bucket name b _ _ hb (.complete key uploadId choice u parts hu hne hparts)
      | mark key id next hdraw => exact .bucket name b _ _ hb (.mark key id next hdraw)
      | forget key hunset => exact .bucket name b _ _ hb (.forget key hunset)
      | drop key id => exact .bucket name b _ _ hb (.drop key id)
      | start key uploadId metadata => exact .bucket name b _ _ hb (.start key uploadId metadata)
      | upload key uploadId u number body hu =>
          exact .bucket name b _ _ hb (.upload key uploadId u number body hu)
      | abort key uploadId u hu => exact .bucket name b _ _ hb (.abort key uploadId u hu)

/-- A request is refused and changes nothing, or it is answered and does what it is for. -/
theorem step_cases (e : Engine) (r : Request) :
    (∃ cause, e.step r = (.error cause, e)) ∨
      ∃ reply e', e.step r = (.ok reply, e') ∧ Effect e r reply e' := by
  rw [step]
  cases h : e.answer r with
  | error cause => exact .inl ⟨cause, rfl⟩
  | ok p => exact .inr ⟨p.1, p.2, rfl, answer_effect h⟩

theorem Effect.eq_of_reads {e e' : Engine} {r : Request} {reply : Reply} (h : Effect e r reply e')
    (hr : r.reads = true) : e' = e := by
  cases h with
  | read => rfl
  | create | delete | draw | reset => cases hr
  | bucket name b _ _ b' next hb h => cases h <;> cases hr

theorem step_of_reads (e : Engine) {r : Request} (hr : r.reads = true) : (e.step r).2 = e := by
  rcases step_cases e r with ⟨_, hstep⟩ | ⟨reply, e', hstep, heffect⟩
  · rw [hstep]
  · rw [hstep, heffect.eq_of_reads hr]

theorem step_change (e : Engine) (r : Request) : Change e (e.step r).2 := by
  rcases step_cases e r with ⟨cause, h⟩ | ⟨reply, e', h, heffect⟩
  · rw [h]
    exact .same
  · rw [h]
    exact heffect.change

end Engine

end BucketStore
