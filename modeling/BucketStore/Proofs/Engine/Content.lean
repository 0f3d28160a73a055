import BucketStore.Proofs.Engine.ObjectReading
import BucketStore.Proofs.Engine.Representation
import BucketStore.Proofs.Store.Agreement

namespace BucketStore

/-- An object that was put together from these bodies, as its part count and its tag tell. -/
structure Object.MadeOf (bodies : List (List UInt8)) (o : Object) : Prop where
  nonempty : bodies ≠ []
  body : o.body = bodies.flatten
  count : o.partsCount = some (min bodies.length (2 ^ 32 - 1))
  tag : o.etag = EntityTag.composite (bodies.map EntityTag.ofBody)
  ending : ∃ front, o.etag = front ++ "-" ++ toString bodies.length ++ "\""

structure Object.Intact (o : Object) : Prop where
  size : o.size = o.body.length
  tag : (o.partsCount = none ∧ o.etag = EntityTag.ofBody o.body) ∨ ∃ bodies, o.MadeOf bodies

theorem EntityTag.composite_ending (tags : List String) :
    ∃ front, composite tags = front ++ "-" ++ toString tags.length ++ "\"" := ⟨_, rfl⟩

theorem Object.intact_ofBody (key : String) (id : Option String) (body : List UInt8) (metadata : Metadata) :
    (Object.ofBody key id body metadata).Intact := ⟨rfl, .inl ⟨rfl, rfl⟩⟩

theorem Object.Intact.withId {o : Object} (h : o.Intact) (id : Option String) :
    ({ o with versionId := id } : Object).Intact :=
  ⟨h.size, h.tag.imp (fun h => h) (fun ⟨bodies, hm⟩ =>
    ⟨bodies, hm.nonempty, hm.body, hm.count, hm.tag, hm.ending⟩)⟩

namespace Upload

variable {name : String} {u : Upload} {previous : Option UInt32} {choice : List PartChoice} {parts : List Part}

theorem choose_ne_nil (h : u.choose previous choice = .ok parts) (hne : choice ≠ []) : parts ≠ [] := by
  cases choice with
  | nil => exact absurd rfl hne
  | cons c rest =>
      rw [choose] at h
      split at h
      · cases h
      · split at h
        · cases h
        · obtain ⟨tail, _, rfl⟩ := Engine.map_eq_ok.mp h
          exact List.cons_ne_nil _ _

theorem Filed.intact_assemble (hu : u.Filed name) (h : u.choose previous choice = .ok parts) (hne : choice ≠ [])
    (id : Option String) : (u.assemble parts id).Intact := by
  have htags : parts.map (·.etag) = (parts.map (·.body)).map EntityTag.ofBody := by
    rw [List.map_map]
    refine List.map_congr_left (fun p hp => ?_)
    rw [← choose_eq_ok h] at hp
    obtain ⟨c, _, hc⟩ := List.mem_filterMap.mp hp
    exact (hu.parts c.number p hc).2.2
  refine ⟨rfl, .inr ⟨parts.map (·.body), ?_⟩⟩
  have hlength : (parts.map (·.body)).length = parts.length := List.length_map _
  constructor
  case nonempty => simpa using choose_ne_nil h hne
  case body => exact List.flatMap_def
  case count => rw [hlength]; rfl
  case tag => exact congrArg EntityTag.composite htags
  case ending =>
    have hending := EntityTag.composite_ending (parts.map (·.etag))
    rw [List.length_map, ← hlength] at hending
    exact hending

end Upload

def Bucket.Intact (b : Bucket) : Prop := ∀ key o, .object o ∈ b.store.history key → o.Intact

theorem Bucket.Change.intact {name : String} {n n' : UInt64} {b b' : Bucket} (h : Change name n b b' n')
    (hs : b.sessions.Filed name) (hb : b.Intact) : b'.Intact := by
  have added : ∀ p : Object, p.Intact → ∀ key o, .object o ∈ (b.store.add (.object p)).history key → o.Intact := by
    intro p hp key o ho
    rcases ObjectStore.mem_history_add ho with ⟨heq, _⟩ | ho
    · cases heq
      exact hp
    · exact hb key o ho
  cases h with
  | configure =>
      intro key o ho
      rcases ObjectStore.mem_history_migrate ho with ho | ⟨p, hp, heq⟩
      · exact hb key o ho
      · cases heq
        exact (hb key p hp).withId _
  | put key body metadata => exact added _ (Object.intact_ofBody key _ body metadata)
  | complete key uploadId choice u parts hu hne hparts =>
      have hfiled := (hs.uploads u (List.mem_of_find?_eq_some (upload?_eq_some_iff.mp hu).1)).2
      exact added _ (hfiled.intact_assemble hparts hne _)
  | mark key id =>
      intro k o ho
      rcases ObjectStore.mem_history_add (v := .marker ⟨key, id⟩) ho with ⟨heq, _⟩ | ho
      · cases heq
      · exact hb k o ho
  | forget key => exact fun k o ho => hb k o ((ObjectStore.history_remove_sublist _ key k).subset ho)
  | drop key id => exact fun k o ho => hb k o ((ObjectStore.history_dropVersion_sublist _ key id k).subset ho)
  | start | upload | abort => exact hb

def Request.bucket? : Request → Option String
  | .createBucket name | .deleteBucket name | .bucketExists name | .putVersioning name _ | .getVersioning name
  | .putObject name _ _ _ | .getObject name _ | .getVersion name _ _ | .headObject name _ | .headVersion name _ _
  | .deleteObject name _ | .deleteVersion name _ _ | .listObjects name _ _ _ _ | .listByToken name _ _ _ _ _
  | .listVersions name _ _ _ _ _ | .createUpload name _ _ _ | .uploadPart name _ _ _ _ | .completeUpload name _ _ _
  | .abortUpload name _ _ | .listParts name _ _ _ _ | .listUploads name _ _ _ | .stats name => some name
  | .listBuckets | .listBucketsPage .. | .reset | .nextVersionId | .describe | .settings => none

/-- The versions that a reply shows whole. -/
def Reply.shownVersions : Reply → List Version
  | .object o => [.object o]
  | .versions page => page.rows.map (·.version)
  | _ => []

def Reply.shownHeads : Reply → List Head
  | .head h => [h]
  | .objects page => page.rows
  | .tokenPage page => page.rows
  | _ => []

namespace ObjectStore

open Listing

variable {s : ObjectStore} {key id : String} {o : Object}

theorem mem_history_of_getVersion? (h : s.getVersion? key id = some o) : .object o ∈ s.history key := by
  cases s with
  | plain s =>
      rw [getVersion?, Option.ite_none_right_eq_some] at h
      exact mem_history_of_get? (s := plain s) h.2
  | versioned s =>
      obtain ⟨v, hv, ho⟩ := Option.bind_eq_some_iff.mp h
      cases v with
      | object p => cases ho; exact List.mem_of_find?_eq_some hv
      | marker m => cases ho

end ObjectStore

namespace Engine

variable {e : Engine} {name key : String} {r : Request} {reply : Reply}

theorem Intact.step {e : Engine} (r : Request)
    (h : ∀ name b, e.buckets.get? name = some b → b.sessions.Filed name ∧ b.Intact) :
    ∀ name b, (e.step r).2.buckets.get? name = some b → b.sessions.Filed name ∧ b.Intact :=
  (step_change e r).forall_buckets (P := fun name _ b => b.sessions.Filed name ∧ b.Intact) (R := fun _ _ => True)
    trivial (fun _ hb => hb)
    (fun _ _ => ⟨.of List.nodup_nil (fun _ hu => by cases hu), fun _ _ ho => by cases ho⟩)
    (fun hc _ hb => ⟨hc.sessions_filed hb.1, hc.intact hb.1 hb.2⟩) h

theorem Reachable.intact (h : Reachable e) : ∀ name b, e.buckets.get? name = some b → b.Intact := by
  suffices h : ∀ name b, e.buckets.get? name = some b → b.sessions.Filed name ∧ b.Intact from
    fun name b hb => (h name b hb).2
  induction h with
  | fresh settings first => intro name b hb; rw [fresh_empty] at hb; cases hb
  | step r _ ih => exact Intact.step r ih

section Reads

variable {name key id : String} {o : Object} {stem delimiter marker versionIdMarker : Option String} {cap : Option Nat}
  {b : Bucket} {v : Version}

theorem Filed.mem_history (hfiled : e.Filed) (hb : e.buckets.get? name = some b) (hv : v ∈ b.store.history key) :
    v ∈ e.history name v.key := by
  obtain rfl := (hfiled name b hb).2 key v hv
  rwa [history_of_bucket hb]

theorem Filed.of_getObject (hfiled : e.Filed) (h : e.getObject name key = .ok o) :
    .object o ∈ e.history name o.key := by
  obtain ⟨b, hb, ho⟩ := getObject_eq_ok.mp h
  exact hfiled.mem_history hb (ObjectStore.mem_history_of_get? ho)

theorem Filed.of_getVersion (hfiled : e.Filed) (h : e.getVersion name key id = .ok o) :
    .object o ∈ e.history name o.key := by
  obtain ⟨b, hb, h⟩ := bind_eq_ok.mp h
  cases hget : b.store.getVersion? key id with
  | none =>
      rw [hget] at h
      dsimp only at h
      split at h <;> cases h
  | some p =>
      rw [hget] at h
      cases h
      exact hfiled.mem_history (bucket_eq_ok.mp hb) (ObjectStore.mem_history_of_getVersion? hget)

theorem Filed.of_listObjects {page : Listing.Page Head} {head : Head} (hfiled : e.Filed)
    (h : e.listObjects name stem delimiter marker cap = .ok page) (hhead : head ∈ page.rows) :
    ∃ o, .object o ∈ e.history name head.key ∧ o.toHead = head := by
  obtain ⟨b, hb, h⟩ := bind_eq_ok.mp h
  cases h
  obtain ⟨key, o, ho, rfl⟩ := ObjectStore.of_mem_listObjects hhead
  exact ⟨o, hfiled.mem_history (bucket_eq_ok.mp hb) (ObjectStore.mem_history_of_get? ho), rfl⟩

theorem Filed.of_listByToken {token startAfter : Option String} {page : TokenPage} {head : Head} (hfiled : e.Filed)
    (h : e.listByToken name stem delimiter token startAfter cap = .ok page) (hhead : head ∈ page.rows) :
    ∃ o, .object o ∈ e.history name head.key ∧ o.toHead = head := by
  have hobjects : ∃ marker, e.listObjects name stem delimiter marker cap = .ok page.toPage := by
    cases token with
    | none =>
        obtain ⟨marker, _, h⟩ := bind_eq_ok.mp h
        obtain ⟨objects, hobjects, heq⟩ := bind_eq_ok.mp h
        cases heq
        exact ⟨marker, hobjects⟩
    | some token =>
        rw [listByToken] at h
        obtain ⟨marker, _, h⟩ := bind_eq_ok.mp h
        obtain ⟨objects, hobjects, heq⟩ := bind_eq_ok.mp h
        cases heq
        exact ⟨marker, hobjects⟩
  obtain ⟨marker, hobjects⟩ := hobjects
  exact hfiled.of_listObjects hobjects hhead

theorem Filed.of_listVersions {page : Listing.VersionPage} {row : Listing.VersionRow} (hfiled : e.Filed)
    (h : e.listVersions name stem delimiter marker versionIdMarker cap = .ok page) (hrow : row ∈ page.rows) :
    row.version ∈ e.history name row.version.key := by
  obtain ⟨b, hb, h⟩ := bind_eq_ok.mp h
  cases h
  obtain ⟨key, hv⟩ := ObjectStore.of_mem_listVersions hrow
  exact hfiled.mem_history (bucket_eq_ok.mp hb) hv

end Reads

theorem shown_is_stored (hfiled : e.Filed) (hr : r.reads = true) (h : (e.step r).1 = .ok reply) :
    (∀ v ∈ reply.shownVersions, ∃ name, r.bucket? = some name ∧ v ∈ e.history name v.key) ∧
    ∀ head ∈ reply.shownHeads, ∃ name, r.bucket? = some name ∧
      ∃ o, .object o ∈ e.history name head.key ∧ o.toHead = head := by
  have hanswer : ∃ e', e.answer r = .ok (reply, e') := by
    rw [step] at h
    cases hanswer : e.answer r with
    | error cause => rw [hanswer] at h; cases h
    | ok p => rw [hanswer] at h; cases h; exact ⟨p.2, rfl⟩
  obtain ⟨e', hanswer⟩ := hanswer
  cases r with
  | createBucket | deleteBucket | putVersioning | putObject | deleteObject | deleteVersion | createUpload
  | uploadPart | completeUpload | abortUpload | reset | nextVersionId => cases hr
  | bucketExists | listBuckets | listBucketsPage | describe | settings =>
      cases hanswer
      exact ⟨List.forall_mem_nil _, List.forall_mem_nil _⟩
  | getVersioning | listParts | listUploads | stats =>
      obtain ⟨_, _, heq⟩ := map_eq_ok.mp hanswer
      cases heq
      exact ⟨List.forall_mem_nil _, List.forall_mem_nil _⟩
  | getObject name key =>
      obtain ⟨o, ho, heq⟩ := map_eq_ok.mp hanswer
      cases heq
      exact ⟨List.forall_mem_singleton.mpr ⟨name, rfl, hfiled.of_getObject ho⟩, List.forall_mem_nil _⟩
  | getVersion name key id =>
      obtain ⟨o, ho, heq⟩ := map_eq_ok.mp hanswer
      cases heq
      exact ⟨List.forall_mem_singleton.mpr ⟨name, rfl, hfiled.of_getVersion ho⟩, List.forall_mem_nil _⟩
  | headObject name key =>
      obtain ⟨o, ho, heq⟩ := map_eq_ok.mp hanswer
      cases heq
      exact ⟨List.forall_mem_nil _, List.forall_mem_singleton.mpr ⟨name, rfl, o, hfiled.of_getObject ho, rfl⟩⟩
  | headVersion name key id =>
      obtain ⟨o, ho, heq⟩ := map_eq_ok.mp hanswer
      cases heq
      exact ⟨List.forall_mem_nil _, List.forall_mem_singleton.mpr ⟨name, rfl, o, hfiled.of_getVersion ho, rfl⟩⟩
  | listObjects name stem delimiter marker cap =>
      obtain ⟨page, hpage, heq⟩ := map_eq_ok.mp hanswer
      cases heq
      exact ⟨List.forall_mem_nil _, fun head hhead => ⟨name, rfl, hfiled.of_listObjects hpage hhead⟩⟩
  | listByToken name stem delimiter token startAfter cap =>
      obtain ⟨page, hpage, heq⟩ := map_eq_ok.mp hanswer
      cases heq
      exact ⟨List.forall_mem_nil _, fun head hhead => ⟨name, rfl, hfiled.of_listByToken hpage hhead⟩⟩
  | listVersions name stem delimiter keyMarker versionIdMarker cap =>
      obtain ⟨page, hpage, heq⟩ := map_eq_ok.mp hanswer
      cases heq
      refine ⟨fun v hv => ?_, List.forall_mem_nil _⟩
      obtain ⟨row, hrow, rfl⟩ := List.mem_map.mp hv
      exact ⟨name, rfl, hfiled.of_listVersions hpage hrow⟩

/-- Every stored object is intact after any run, and reads show stored objects as they are. -/
theorem content_integrity (he : Reachable e) :
    (∀ name key o, .object o ∈ e.history name key → o.Intact) ∧
    ∀ r reply, r.reads = true → (e.step r).1 = .ok reply →
      (∀ v ∈ reply.shownVersions, ∃ name, r.bucket? = some name ∧ v ∈ e.history name v.key) ∧
      ∀ head ∈ reply.shownHeads, ∃ name, r.bucket? = some name ∧
        ∃ o, .object o ∈ e.history name head.key ∧ o.toHead = head := by
  refine ⟨fun name key o ho => ?_, fun r reply hr h => shown_is_stored he.filed hr h⟩
  cases hb : e.buckets.get? name with
  | none =>
      rw [history_of_absent hb] at ho
      cases ho
  | some b =>
      rw [history_of_bucket hb] at ho
      exact he.intact name b hb key o ho

def migratedUpload : List Request :=
  [.createBucket "b", .createUpload "b" "k" "u" {}, .uploadPart "b" "k" "u" 2 [3], .uploadPart "b" "k" "u" 1 [4, 5],
    .completeUpload "b" "k" "u" [⟨1, EntityTag.ofBody [4, 5]⟩, ⟨2, EntityTag.ofBody [3]⟩],
    .putVersioning "b" "Enabled"]

def assembledObject : Object :=
  { Object.ofBody "k" (some VersionId.null) [4, 5, 3] {} with
    etag := EntityTag.composite [EntityTag.ofBody [4, 5], EntityTag.ofBody [3]]
    partsCount := some 2 }

theorem migratedUpload_intact : assembledObject.Intact ∧
    .object assembledObject ∈ ((fresh {} 1).run migratedUpload).2.history "b" "k" ∧
    ∃ o, .object o ∈ ((fresh {} 1).run migratedUpload).2.history "b" "k" ∧ o.toHead = assembledObject.toHead := by
  obtain ⟨hintact, hshown⟩ := content_integrity ((Reachable.fresh {} 1).run migratedUpload)
  obtain ⟨hobject, _⟩ := hshown (.getObject "b" "k") (.object assembledObject) rfl (by decide +kernel)
  obtain ⟨_, hhead⟩ := hshown (.headObject "b" "k") (.head assembledObject.toHead) rfl (by decide +kernel)
  obtain ⟨name, hname, hstored⟩ := hobject _ List.mem_cons_self
  obtain ⟨name', hname', o, ho, heq⟩ := hhead _ List.mem_cons_self
  cases hname
  cases hname'
  exact ⟨hintact _ _ _ hstored, hstored, o, ho, heq⟩

end Engine

end BucketStore
