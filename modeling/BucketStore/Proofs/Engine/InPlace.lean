import BucketStore.Proofs.Engine.Locality
import BucketStore.Proofs.Engine.Moments
import BucketStore.Proofs.PartChoice

namespace BucketStore

/-- A request that is carried out write by write on the one engine there is. What fails part way leaves
all that it has written until then. -/
abbrev InPlace := ExceptT StoreError (StateM Engine)

namespace InPlace

variable {α β : Type}

def look (f : Engine → Except StoreError α) : InPlace α := fun e => (f e, e)

def edit (f : Engine → Engine) : InPlace Unit := fun e => (.ok (), f e)

def editStore (name : String) (f : ObjectStore → ObjectStore) : InPlace Unit :=
  edit (fun e => e.update name (fun b => { b with store := f b.store }))

def editSessions (name : String) (f : Sessions → Sessions) : InPlace Unit :=
  edit (fun e => e.update name (fun b => { b with sessions := f b.sessions }))

def editVersioning (name : String) (status : Versioning) : InPlace Unit :=
  edit (fun e => e.update name (fun b => { b with versioning := status }))

def drawId : Versioning → InPlace (Option String)
  | .unset => return none
  | .suspended => return some VersionId.null
  | .enabled => do
    let n ← look (fun e => .ok e.nextVersion)
    edit (fun e => { e with nextVersion := n + 1 })
    return some (VersionId.ofCounter n)

def createBucket (name : String) : InPlace Unit := do
  if ← look (fun e => .ok (e.buckets.contains name)) then throw (.bucketAlreadyOwned name)
  else edit (fun e => e.setBucket name { name })

def deleteBucket (name : String) : InPlace Unit := do
  let b ← look (·.bucket name)
  if b.hasLiveObjects then throw (.bucketNotEmpty name)
  else edit (fun e => { e with buckets := e.buckets.erase name })

/-- The objects are turned into versions before the status says so. -/
def putVersioning (name status : String) : InPlace Unit := do
  let target ← look (fun _ => Versioning.parse status)
  let b ← look (·.bucket name)
  if b.versioning = target then return ()
  else if target = .unset then throw (.invalidVersioning target.text)
  else
    editStore name ObjectStore.migrate
    editVersioning name target

def storeObject (name : String) (status : Versioning) (build : Option String → Object) : InPlace Object := do
  let id ← drawId status
  editStore name (ObjectStore.add (.object (build id)))
  return build id

def putObject (name key : String) (body : List UInt8) (metadata : Metadata) : InPlace Object := do
  let b ← look (·.bucket name)
  storeObject name b.versioning (fun id => Object.ofBody key id body metadata)

def deleteObject (name key : String) : InPlace Deletion := do
  let b ← look (·.bucket name)
  match ← drawId b.versioning with
  | none =>
    editStore name (fun s => (s.remove key).2)
    return .placeholder key
  | some id =>
    editStore name (ObjectStore.add (.marker ⟨key, id⟩))
    return ⟨key, some id, true⟩

def deleteVersion (name key id : String) : InPlace Deletion := do
  let b ← look (·.bucket name)
  editStore name (fun s => (s.dropVersion key id).2)
  match (b.store.dropVersion key id).1 with
  | none => return .placeholder key
  | some v => return ⟨key, some id, v.isMarker⟩

def createUpload (name key uploadId : String) (metadata : Metadata) : InPlace UploadSummary := do
  let _ ← look (·.bucket name)
  let u : Upload := { id := uploadId, bucket := name, key, metadata }
  editSessions name (·.begin u)
  return u.toUploadSummary

def uploadPart (name key uploadId : String) (number : UInt32) (body : List UInt8) : InPlace Part := do
  let (_, u) ← look (·.session name key uploadId)
  let p := Part.ofBody number body
  editSessions name (·.update (u.put p))
  return p

/-- Collects the chosen parts one by one, and stops at the first that is out of order or not there. -/
def collect (u : Upload) (uploadId : String) : Option UInt32 → List PartChoice → InPlace (List Part)
  | _, [] => return []
  | previous, c :: rest => do
    if previous.any (c.number ≤ ·) then throw (.invalidPartOrder uploadId)
    else
      match (u.part? c.number).filter (fun p => EntityTag.Same p.etag c.etag) with
      | none => throw (.invalidPart uploadId c.number)
      | some p =>
        let parts ← collect u uploadId (some c.number) rest
        return p :: parts

/-- The session goes after the object was written. -/
def completeUpload (name key uploadId : String) (choice : List PartChoice) : InPlace Object := do
  let (b, u) ← look (·.session name key uploadId)
  if choice = [] then throw (.invalidArgument "You must specify at least one part")
  else
    let parts ← collect u uploadId none choice
    let o ← storeObject name b.versioning (u.assemble parts)
    editSessions name (·.erase uploadId)
    return o

def abortUpload (name key uploadId : String) : InPlace Unit := do
  let _ ← look (·.session name key uploadId)
  editSessions name (·.erase uploadId)

def perform : Request → InPlace Reply
  | .createBucket name => (fun _ => .done) <$> createBucket name
  | .deleteBucket name => (fun _ => .done) <$> deleteBucket name
  | .putVersioning name status => (fun _ => .done) <$> putVersioning name status
  | .putObject name key body metadata => .object <$> putObject name key body metadata
  | .deleteObject name key => .deletion <$> deleteObject name key
  | .deleteVersion name key id => .deletion <$> deleteVersion name key id
  | .createUpload name key id metadata => .upload <$> createUpload name key id metadata
  | .uploadPart name key id number body => .part <$> uploadPart name key id number body
  | .completeUpload name key id choice => .object <$> completeUpload name key id choice
  | .abortUpload name key id => (fun _ => .done) <$> abortUpload name key id
  | .reset => (fun _ => .done) <$> edit Engine.reset
  | .nextVersionId => (fun id => .versionId (id.getD VersionId.null)) <$> drawId .enabled
  | r => look (fun e => (e.answer r).map Prod.fst)

section Run

variable {p : InPlace α} {q : α → InPlace β} {e e' : Engine} {a : α} {cause : StoreError} {name : String} {b : Bucket}

theorem bind_of_ok (h : p e = (.ok a, e')) : (p >>= q) e = q a e' := by
  simp only [bind, ExceptT.bind, StateT.bind, ExceptT.mk, ExceptT.bindCont]
  rw [h]

theorem bind_of_error (h : p e = (.error cause, e')) : (p >>= q) e = (.error cause, e') := by
  simp only [bind, ExceptT.bind, StateT.bind, ExceptT.mk, ExceptT.bindCont]
  rw [h]
  rfl

theorem map_run (f : α → β) (p : InPlace α) (e : Engine) : (f <$> p) e = ((p e).1.map f, (p e).2) := by
  rcases h : p e with ⟨cause | a, e'⟩
  · exact bind_of_error h
  · exact bind_of_ok h

def settle (e : Engine) : Except StoreError (α × Engine) → Except StoreError α × Engine
  | .ok (a, e') => (.ok a, e')
  | .error cause => (.error cause, e)

theorem step_eq_settle (e : Engine) (r : Request) : e.step r = settle e (e.answer r) := by
  rw [Engine.step]
  cases e.answer r <;> rfl

theorem settle_map (f : α → β) (e : Engine) (x : Except StoreError (α × Engine)) :
    settle e (x.map (fun p => (f p.1, p.2))) = ((settle e x).1.map f, (settle e x).2) := by
  cases x <;> rfl

theorem look_bind {f : Engine → Except StoreError α} {g : α → Except StoreError (β × Engine)}
    (h : ∀ a, f e = .ok a → q a e = settle e (g a)) : (look f >>= q) e = settle e (f e >>= g) := by
  cases hf : f e with
  | error cause => exact bind_of_error (by rw [look, hf])
  | ok a => exact (bind_of_ok (by rw [look, hf])).trans (h a hf)

theorem look_bind_unit {f : Engine → Except StoreError α} {q : α → InPlace Unit} {g : α → Except StoreError Engine}
    (h : ∀ a, f e = .ok a → q a e = settle e ((g a).map (fun e => ((), e)))) :
    (look f >>= q) e = settle e ((f e >>= g).map (fun e => ((), e))) := by
  rw [look_bind h]
  cases f e <;> rfl

theorem editStore_run (hb : e.buckets.get? name = some b) (f : ObjectStore → ObjectStore) :
    editStore name f e = (.ok (), e.setBucket name { b with store := f b.store }) :=
  congrArg (Prod.mk _) (Engine.update_of_bucket hb _)

theorem editSessions_run (hb : e.buckets.get? name = some b) (f : Sessions → Sessions) :
    editSessions name f e = (.ok (), e.setBucket name { b with sessions := f b.sessions }) :=
  congrArg (Prod.mk _) (Engine.update_of_bucket hb _)

theorem drawId_run (status : Versioning) (e : Engine) : drawId status e =
    (.ok (status.draw e.nextVersion).1, { e with nextVersion := (status.draw e.nextVersion).2 }) := by
  cases status <;> rfl

end Run

section Operations

variable {e : Engine} {name key id : String} {b : Bucket} {u : Upload} {r : Request}

theorem createBucket_run (name : String) (e : Engine) :
    createBucket name e = settle e ((e.createBucket name).map (fun e => ((), e))) := by
  refine (bind_of_ok (a := e.buckets.contains name) rfl).trans ?_
  rw [Engine.createBucket]
  cases e.buckets.contains name <;> rfl

theorem deleteBucket_run (name : String) (e : Engine) :
    deleteBucket name e = settle e ((e.deleteBucket name).map (fun e => ((), e))) := by
  apply look_bind_unit
  intro b _
  cases b.hasLiveObjects <;> rfl

theorem putVersioning_run (name status : String) (e : Engine) :
    putVersioning name status e = settle e ((e.putVersioning name status).map (fun e => ((), e))) := by
  apply look_bind_unit
  intro target _
  apply look_bind_unit
  intro b hb
  have hget := Engine.bucket_eq_ok.mp hb
  rw [Bucket.setVersioning]
  split
  · change _ = (Except.ok (), e.setBucket name b)
    rw [Engine.setBucket_self hget]
    rfl
  · split
    · rfl
    · rw [bind_of_ok (editStore_run hget _)]
      exact congrArg (Prod.mk _) (Engine.update_setBucket _ _ _ _)

theorem storeObject_run (hb : e.buckets.get? name = some b) (build : Option String → Object) :
    storeObject name b.versioning build e = (.ok (e.write name b build).1, (e.write name b build).2) := by
  have hstore := editStore_run (e := { e with nextVersion := (b.versioning.draw e.nextVersion).2 }) hb
    (ObjectStore.add (.object (build (b.versioning.draw e.nextVersion).1)))
  rw [storeObject, bind_of_ok (drawId_run b.versioning e), bind_of_ok hstore]
  rfl

theorem putObject_run (name key : String) (body : List UInt8) (metadata : Metadata) (e : Engine) :
    putObject name key body metadata e = settle e (e.putObject name key body metadata) := by
  apply look_bind
  intro b hb
  exact storeObject_run (Engine.bucket_eq_ok.mp hb) _

theorem deleteObject_run (name key : String) (e : Engine) :
    deleteObject name key e = settle e (e.deleteObject name key) := by
  apply look_bind
  intro b hb
  have hget := Engine.bucket_eq_ok.mp hb
  rw [bind_of_ok (drawId_run b.versioning e)]
  rcases hdraw : b.versioning.draw e.nextVersion with ⟨_ | id, next⟩
  · obtain rfl : next = e.nextVersion := by
      cases hv : b.versioning <;> simp_all [Versioning.draw]
    exact bind_of_ok (editStore_run hget _)
  · exact bind_of_ok (editStore_run (e := { e with nextVersion := next }) hget _)

theorem deleteVersion_run (name key id : String) (e : Engine) :
    deleteVersion name key id e = settle e (e.deleteVersion name key id) := by
  apply look_bind
  intro b hb
  have hget := Engine.bucket_eq_ok.mp hb
  rw [bind_of_ok (editStore_run hget _)]
  rcases hdrop : b.store.dropVersion key id with ⟨_ | v, store⟩
  · obtain rfl : store = b.store :=
      (congrArg Prod.snd hdrop).symm.trans (ObjectStore.dropVersion_eq_self (congrArg Prod.fst hdrop))
    exact congrArg (Prod.mk _) (Engine.setBucket_self hget)
  · rfl

theorem createUpload_run (name key id : String) (metadata : Metadata) (e : Engine) :
    createUpload name key id metadata e = settle e (e.createUpload name key id metadata) := by
  apply look_bind
  intro b hb
  exact bind_of_ok (editSessions_run (Engine.bucket_eq_ok.mp hb) _)

theorem uploadPart_run (name key id : String) (number : UInt32) (body : List UInt8) (e : Engine) :
    uploadPart name key id number body e = settle e (e.uploadPart name key id number body) := by
  apply look_bind
  rintro ⟨b, u⟩ hs
  exact bind_of_ok (editSessions_run (Engine.session_eq_ok.mp hs).1 _)

theorem abortUpload_run (name key id : String) (e : Engine) :
    abortUpload name key id e = settle e ((e.abortUpload name key id).map (fun e => ((), e))) := by
  apply look_bind_unit
  rintro ⟨b, u⟩ hs
  exact editSessions_run (Engine.session_eq_ok.mp hs).1 _

theorem collect_run (u : Upload) (id : String) (previous : Option UInt32) (choice : List PartChoice) (e : Engine) :
    collect u id previous choice e = ((u.choose previous choice).mapError (Upload.ChoiceError.refusal id), e) := by
  induction choice generalizing previous with
  | nil => rfl
  | cons c rest ih =>
      rw [collect, Upload.choose]
      split
      · rfl
      · cases (u.part? c.number).filter (fun p => EntityTag.Same p.etag c.etag) with
        | none => rfl
        | some p =>
            have hrest := ih (some c.number)
            dsimp only
            cases hc : u.choose (some c.number) rest with
            | error cause => rw [hc] at hrest; exact bind_of_error hrest
            | ok parts => rw [hc] at hrest; exact bind_of_ok hrest

theorem completeUpload_run (name key id : String) (choice : List PartChoice) (e : Engine) :
    completeUpload name key id choice e = settle e (e.completeUpload name key id choice) := by
  apply look_bind
  rintro ⟨b, u⟩ hs
  have hget := (Engine.session_eq_ok.mp hs).1
  dsimp only
  split
  · rfl
  · have hcollect := collect_run u id none choice e
    cases hc : u.choose none choice with
    | error cause =>
        rw [hc] at hcollect
        rw [bind_of_error hcollect]
        cases cause <;> rfl
    | ok parts =>
        rw [hc] at hcollect
        have hwritten : (e.write name b (u.assemble parts)).2.buckets.get? name = some { b with
            store := b.store.add (.object (u.assemble parts (b.versioning.draw e.nextVersion).1)) } :=
          (Table.get?_insert _ _ _ _).trans (if_pos rfl)
        rw [bind_of_ok hcollect, bind_of_ok (storeObject_run hget _), bind_of_ok (editSessions_run hwritten _)]
        exact Prod.ext rfl (congrArg (fun t => (⟨e.settings, t, (b.versioning.draw e.nextVersion).2⟩ : Engine))
          (Table.insert_insert e.buckets name _ _))

theorem look_answer (hr : r.reads = true) :
    look (fun e => (e.answer r).map Prod.fst) e = settle e (e.answer r) := by
  cases h : e.answer r with
  | error cause => rw [look, h]; rfl
  | ok p =>
      obtain rfl := (Engine.answer_effect h).eq_of_reads hr
      rw [look, h]
      rfl

/-- Writes in place come to the same as making a whole new engine of a request that succeeds. -/
theorem perform_eq_step (r : Request) (e : Engine) : perform r e = e.step r := by
  rw [step_eq_settle]
  cases r with
  | createBucket name =>
      rw [perform, map_run, createBucket_run, Engine.answer]
      cases e.createBucket name <;> rfl
  | deleteBucket name =>
      rw [perform, map_run, deleteBucket_run, Engine.answer]
      cases e.deleteBucket name <;> rfl
  | putVersioning name status =>
      rw [perform, map_run, putVersioning_run, Engine.answer]
      cases e.putVersioning name status <;> rfl
  | abortUpload name key id =>
      rw [perform, map_run, abortUpload_run, Engine.answer]
      cases e.abortUpload name key id <;> rfl
  | putObject => rw [perform, map_run, putObject_run]; exact (settle_map _ _ _).symm
  | deleteObject => rw [perform, map_run, deleteObject_run]; exact (settle_map _ _ _).symm
  | deleteVersion => rw [perform, map_run, deleteVersion_run]; exact (settle_map _ _ _).symm
  | createUpload => rw [perform, map_run, createUpload_run]; exact (settle_map _ _ _).symm
  | uploadPart => rw [perform, map_run, uploadPart_run]; exact (settle_map _ _ _).symm
  | completeUpload => rw [perform, map_run, completeUpload_run]; exact (settle_map _ _ _).symm
  | reset | nextVersionId => rfl
  | _ => exact look_answer rfl

end Operations

end InPlace

theorem ObjectStore.dropVersion_eq_none_iff {s : ObjectStore} {key id : String} :
    (s.dropVersion key id).1 = none ↔ s.getVersion? key id = none ∧ s.isMarker key id = false := by
  cases s with
  | plain s =>
      rw [dropVersion, getVersion?, isMarker]
      split <;> simp
  | versioned s =>
      rw [dropVersion, VersionedStore.dropVersion, getVersion?, isMarker]
      cases s.find? key id with
      | none => simp
      | some v =>
          cases (s.history key).remove id <;> cases v <;>
            simp [Version.object?, Version.isMarker, Version.marker?]

theorem ObjectStore.remove_eq_self {s : ObjectStore} {key : String} (h : s.get? key = none) : (s.remove key).2 = s := by
  cases s with
  | plain s => exact congrArg plain (Table.erase_eq_self h)
  | versioned s => rfl

namespace Engine

variable {e : Engine} {name key id : String} {b : Bucket}

theorem getVersion_eq_noSuchVersion_iff : e.getVersion name key id = .error (.noSuchVersion key id) ↔
    ∃ b, e.buckets.get? name = some b ∧ (b.store.dropVersion key id).1 = none := by
  simp only [ObjectStore.dropVersion_eq_none_iff, getVersion, bucket]
  cases e.buckets.get? name with
  | none => simp [bind, Except.bind]
  | some b =>
      simp only [bind, Except.bind, Option.some_inj, exists_eq_left']
      cases b.store.getVersion? key id with
      | some o => simp
      | none => cases b.store.isMarker key id <;> simp

theorem deleteVersion_placeholder_iff (hb : e.buckets.get? name = some b) (key id : String) :
    (e.step (.deleteVersion name key id)).1 = .ok (.deletion (.placeholder key)) ↔
      (b.store.dropVersion key id).1 = none := by
  rw [step, answer, deleteVersion, bucket_eq_ok.mpr hb]
  simp only [bind, Except.bind]
  rcases b.store.dropVersion key id with ⟨_ | v, store⟩ <;> simp [Except.map, Deletion.placeholder]

def accepted (e : Engine) (rs : List Request) : List Request :=
  ((e.moments rs).filter Moment.succeeds).map Moment.request

theorem run_accepted (time : Nat) (e : Engine) (rs : List Request) :
    e.run (((momentsFrom time e rs).filter Moment.succeeds).map Moment.request) =
      ((e.run rs).1.filter Except.toBool, (e.run rs).2) := by
  induction rs generalizing time e with
  | nil => rfl
  | cons r rs ih =>
      have hlater := ih (time + 1) (e.step r).2
      rw [momentsFrom, List.filter_cons, run]
      rcases step_cases e r with ⟨cause, hstep⟩ | ⟨reply, e', hstep, _⟩
      · have hrefused : (⟨time, e, r⟩ : Moment).outcome = .error cause := congrArg Prod.fst hstep
        rw [hstep] at hlater ⊢
        rw [Moment.not_succeeds_of_error hrefused]
        exact hlater
      · have haccepted : (⟨time, e, r⟩ : Moment).outcome = .ok reply := congrArg Prod.fst hstep
        rw [hstep] at hlater ⊢
        rw [Moment.succeeds_of_ok haccepted, if_pos rfl, List.map_cons, run, hstep]
        dsimp only at hlater ⊢
        rw [hlater]
        rfl

/-- Requests write in place and take nothing back. Still, one that is refused, that only reads or that finds
nothing to delete leaves the engine as it was, so a run goes as if the refused ones had not been made. -/
theorem refusals_leave_no_trace (e : Engine) :
    (∀ r, InPlace.perform r e = e.step r) ∧
    (∀ r cause, (InPlace.perform r e).1 = .error cause → (InPlace.perform r e).2 = e) ∧
    (∀ r, r.reads = true → (InPlace.perform r e).2 = e) ∧
    (∀ name key id,
      ((InPlace.perform (.deleteVersion name key id) e).1 = .ok (.deletion (.placeholder key)) ↔
        e.getVersion name key id = .error (.noSuchVersion key id)) ∧
      (e.getVersion name key id = .error (.noSuchVersion key id) →
        (InPlace.perform (.deleteVersion name key id) e).2 = e)) ∧
    (∀ name key, e.versioning? name = some .unset → e.getObject name key = .error (.noSuchKey name key) →
      InPlace.perform (.deleteObject name key) e = (.ok (.deletion (.placeholder key)), e)) ∧
    ∀ rs, e.run (e.accepted rs) = ((e.run rs).1.filter Except.toBool, (e.run rs).2) := by
  simp only [InPlace.perform_eq_step]
  refine ⟨fun _ => trivial, fun r cause h => ?_, fun r hr => ?_, fun name key id => ?_,
    fun name key hunset hmissing => ?_, run_accepted 0 e⟩
  · rcases step_cases e r with ⟨_, hstep⟩ | ⟨reply, e', hstep, _⟩
    · rw [hstep]
    · rw [hstep] at h
      cases h
  · exact step_of_reads e hr
  · rw [getVersion_eq_noSuchVersion_iff]
    cases hb : e.buckets.get? name with
    | none => simp [step, answer, deleteVersion, bucket, hb, bind, Except.bind, Except.map]
    | some b =>
        refine ⟨by simp [deleteVersion_placeholder_iff hb], ?_⟩
        rintro ⟨c, hc, hnone⟩
        obtain rfl := Option.some.inj hc
        rw [step_deleteVersion, without, update_of_bucket hb, Bucket.without, ObjectStore.dropVersion_eq_self hnone,
          setBucket_self hb]
  · obtain ⟨b, hb, hv⟩ := Option.map_eq_some_iff.mp hunset
    have hnone : b.store.get? key = none := by
      cases hget : b.store.get? key with
      | none => rfl
      | some o => simp [getObject, bucket, hb, hget, bind, Except.bind] at hmissing
    have hdelete : e.deleteObject name key = .ok (.placeholder key, e) := by
      simp only [deleteObject, bucket, hb, hv, Versioning.draw, bind, Except.bind,
        ObjectStore.remove_eq_self hnone]
      rw [← hv, setBucket_self hb]
    rw [step, answer, hdelete]
    rfl

def uploadAndObject : List Request :=
  [.createBucket "b", .putVersioning "b" "Enabled", .putObject "b" "k" [1] {}, .createUpload "b" "k" "u" {},
    .uploadPart "b" "k" "u" 1 [2]]

def refusedAroundWrite : List Request :=
  [.completeUpload "b" "k" "u" [⟨1, EntityTag.ofBody [2]⟩, ⟨2, "x"⟩], .putVersioning "b" "Unset", .createBucket "b",
    .putObject "b" "k" [3] {}, .deleteBucket "b", .putObject "c" "k" [4] {}]

theorem uploadAndObject_after_refusals :
    (InPlace.perform (.completeUpload "b" "k" "u" [⟨1, EntityTag.ofBody [2]⟩, ⟨2, "x"⟩])
      ((fresh {} 1).run uploadAndObject).2).2 = ((fresh {} 1).run uploadAndObject).2 ∧
    (InPlace.perform (.deleteVersion "b" "k" "null") ((fresh {} 1).run uploadAndObject).2).2 =
      ((fresh {} 1).run uploadAndObject).2 ∧
    (InPlace.perform (.deleteObject "c" "k") (fresh {} 1 |>.run [.createBucket "c"]).2).2 =
      ((fresh {} 1).run [.createBucket "c"]).2 ∧
    ((fresh {} 1).run uploadAndObject).2.accepted refusedAroundWrite = [.putObject "b" "k" [3] {}] ∧
    (((fresh {} 1).run uploadAndObject).2.run [.putObject "b" "k" [3] {}]).2 =
      (((fresh {} 1).run uploadAndObject).2.run refusedAroundWrite).2 := by
  have haccepted : ((fresh {} 1).run uploadAndObject).2.accepted refusedAroundWrite = [.putObject "b" "k" [3] {}] := by
    decide +kernel
  obtain ⟨_, hrefused, _, hmissing, _, hrun⟩ := refusals_leave_no_trace ((fresh {} 1).run uploadAndObject).2
  obtain ⟨_, _, _, _, hforget, _⟩ := refusals_leave_no_trace ((fresh {} 1).run [.createBucket "c"]).2
  refine ⟨hrefused _ (.invalidPart "u" 2) (by decide +kernel), (hmissing _ _ _).2 (by decide), ?_, haccepted, ?_⟩
  · rw [hforget _ _ (by decide) (by decide)]
  · rw [← haccepted, hrun]

end Engine

end BucketStore
