import BucketStore.Proofs.Engine.Invariant
import BucketStore.Proofs.Store.Unversioned

namespace BucketStore

def Bucket.unversioned (b : Bucket) : Bucket :=
  { b with versioning := .unset, store := b.store.unversioned }

theorem Bucket.hasLiveObjects_unversioned (b : Bucket) : b.unversioned.hasLiveObjects = b.hasLiveObjects := by
  rw [hasLiveObjects, hasLiveObjects, unversioned, ObjectStore.isEmpty_unversioned]

/-- What a client that knows no versions reads of a reply. -/
def Reply.unversioned : Reply → Reply
  | .object o => .object o.unversioned
  | .head h => .head h.unversioned
  | .deletion d => .deletion (.placeholder d.key)
  | .objects p => .objects (p.map Head.unversioned)
  | .tokenPage p => .tokenPage ⟨p.toPage.map Head.unversioned, p.nextToken⟩
  | r => r

def Request.versionUnaware : Request → Bool
  | .createBucket _ | .deleteBucket _ | .putObject .. | .getObject .. | .headObject .. | .deleteObject ..
  | .listObjects .. | .listByToken .. | .createUpload .. | .uploadPart .. | .completeUpload ..
  | .abortUpload .. | .listParts .. | .listUploads .. => true
  | _ => false

def Request.setsVersioning : Request → Bool
  | .putVersioning .. => true
  | _ => false

namespace Engine

variable {α α' β β' ε : Type} {e e' : Engine} {name key : String}

/-- The engine in which versioning was never heard of. It spends no version IDs. -/
def unversioned (e : Engine) : Engine :=
  { e with buckets := e.buckets.map Bucket.unversioned, nextVersion := 0 }

theorem bind_map_eq {x : Except ε α} {f : α → Except ε β} {g : α' → Except ε β'} {φ : α → α'} {ψ : β → β'}
    (h : ∀ a, x = .ok a → g (φ a) = (f a).map ψ) : (x.map φ >>= g) = (x >>= f).map ψ := by
  cases x with
  | error cause => rfl
  | ok a => exact h a rfl

theorem get?_unversioned (e : Engine) (name : String) :
    e.unversioned.buckets.get? name = (e.buckets.get? name).map Bucket.unversioned :=
  Table.get?_map _ _ _

theorem bucket_unversioned (e : Engine) (name : String) :
    e.unversioned.bucket name = (e.bucket name).map Bucket.unversioned := by
  rw [bucket, bucket, get?_unversioned]
  cases e.buckets.get? name <;> rfl

theorem session_unversioned (e : Engine) (name key id : String) :
    e.unversioned.session name key id = (e.session name key id).map (fun p => (p.1.unversioned, p.2)) := by
  rw [session, session, get?_unversioned]
  cases e.buckets.get? name with
  | none => rfl
  | some b =>
      have hupload : b.unversioned.upload? key id = b.upload? key id := rfl
      simp only [Option.map_some, hupload]
      cases b.upload? key id <;> rfl

theorem setBucket_unversioned (e : Engine) (name : String) (b : Bucket) :
    (e.setBucket name b).unversioned = e.unversioned.setBucket name b.unversioned := by
  simp only [setBucket, unversioned, Table.map_insert]

theorem setSessions_unversioned (e : Engine) (name : String) (b : Bucket) (sessions : Sessions) :
    e.unversioned.setBucket name { b.unversioned with sessions } =
      (e.setBucket name { b with sessions }).unversioned :=
  (setBucket_unversioned e name { b with sessions }).symm

theorem createBucket_unversioned (e : Engine) (name : String) :
    e.unversioned.createBucket name = (e.createBucket name).map unversioned := by
  have hcontains : e.unversioned.buckets.contains name = e.buckets.contains name := by
    rw [Table.contains, Table.contains, get?_unversioned, Option.isSome_map]
  rw [createBucket, createBucket, hcontains]
  cases e.buckets.contains name with
  | true => rfl
  | false => exact congrArg Except.ok (setBucket_unversioned e name { name }).symm

theorem deleteBucket_unversioned (e : Engine) (name : String) :
    e.unversioned.deleteBucket name = (e.deleteBucket name).map unversioned := by
  rw [deleteBucket, deleteBucket, bucket_unversioned]
  apply bind_map_eq
  intro b _
  rw [Bucket.hasLiveObjects_unversioned]
  cases b.hasLiveObjects with
  | true => rfl
  | false =>
      refine congrArg Except.ok ?_
      simp only [unversioned, Table.map_erase]

theorem putVersioning_unversioned {status : String} (h : e.putVersioning name status = .ok e') :
    e'.unversioned = e.unversioned := by
  obtain ⟨target, _, h⟩ := bind_eq_ok.mp h
  obtain ⟨b, hb, h⟩ := bind_eq_ok.mp h
  obtain ⟨b', hb', h⟩ := bind_eq_ok.mp h
  cases h
  have hsame : b'.unversioned = b.unversioned := by
    rw [Bucket.setVersioning] at hb'
    split at hb'
    · cases hb'; rfl
    · split at hb'
      · cases hb'
      · cases hb'
        simp only [Bucket.unversioned, ObjectStore.unversioned_migrate]
  rw [setBucket_unversioned, hsame]
  apply setBucket_self
  rw [get?_unversioned, bucket_eq_ok.mp hb, Option.map_some]

theorem write_unversioned (e : Engine) (name : String) (b : Bucket) {build : Option String → Object}
    (hbuild : ∀ id, (build id).unversioned = build none) :
    e.unversioned.write name b.unversioned build =
      ((e.write name b build).1.unversioned, (e.write name b build).2.unversioned) := by
  have hstore : ∀ id, ({ b with store := b.store.add (.object (build id)) } : Bucket).unversioned =
      { b.unversioned with store := b.unversioned.store.add (.object (build none)) } := by
    intro id
    simp only [Bucket.unversioned, ObjectStore.unversioned_add_object, hbuild]
  have hengine : ∀ id next, ({ e.setBucket name { b with store := b.store.add (.object (build id)) } with
      nextVersion := next } : Engine).unversioned =
        e.unversioned.setBucket name { b.unversioned with store := b.unversioned.store.add (.object (build none)) } := by
    intro id next
    rw [← hstore id, ← setBucket_unversioned]
    rfl
  simp only [write, hbuild, hengine]
  rfl

theorem putObject_unversioned (e : Engine) (name key : String) (body : List UInt8) (metadata : Metadata) :
    e.unversioned.putObject name key body metadata =
      (e.putObject name key body metadata).map (fun p => (p.1.unversioned, p.2.unversioned)) := by
  rw [putObject, putObject, bucket_unversioned]
  apply bind_map_eq
  intro b _
  exact congrArg Except.ok (write_unversioned e name b (fun _ => rfl))

theorem getObject_unversioned (e : Engine) (name key : String) :
    e.unversioned.getObject name key = (e.getObject name key).map Object.unversioned := by
  rw [getObject, getObject, bucket_unversioned]
  apply bind_map_eq
  intro b _
  have hget : b.unversioned.store.get? key = (b.store.get? key).map Object.unversioned :=
    ObjectStore.get?_unversioned _ _
  rw [hget]
  cases b.store.get? key <;> rfl

theorem deleteObject_unversioned (he : e.Matched) (name key : String) :
    e.unversioned.deleteObject name key =
      (e.deleteObject name key).map (fun p => (.placeholder p.1.key, p.2.unversioned)) := by
  rw [deleteObject, deleteObject, bucket_unversioned]
  apply bind_map_eq
  intro b hb
  have hmarked : ∀ id next, ({ e.setBucket name { b with store := b.store.add (.marker ⟨key, id⟩) } with
      nextVersion := next } : Engine).unversioned =
        e.unversioned.setBucket name { b.unversioned with store := (b.unversioned.store.remove key).2 } := by
    intro id next
    have hstore : ({ b with store := b.store.add (.marker ⟨key, id⟩) } : Bucket).unversioned =
        { b.unversioned with store := (b.unversioned.store.remove key).2 } := by
      simp only [Bucket.unversioned, ObjectStore.unversioned_add_marker]
    rw [← hstore, ← setBucket_unversioned]
    rfl
  rcases hdraw : b.versioning.draw e.nextVersion with ⟨_ | id, next⟩
  · have hunset : b.versioning = .unset := by
      cases hv : b.versioning <;> simp [hv, Versioning.draw] at hdraw ⊢
    have hplain := (he name b (bucket_eq_ok.mp hb)).mp hunset
    have hstore : ({ b with store := (b.store.remove key).2 } : Bucket).unversioned =
        { b.unversioned with store := (b.unversioned.store.remove key).2 } := by
      simp only [Bucket.unversioned, ObjectStore.unversioned_remove hplain]
    refine congrArg Except.ok (Prod.ext rfl ?_)
    simp only [setBucket_unversioned, hstore]
  · exact congrArg Except.ok (Prod.ext rfl (hmarked id next).symm)

theorem listObjects_unversioned (e : Engine) (name : String) (stem delimiter marker : Option String)
    (cap : Option Nat) : e.unversioned.listObjects name stem delimiter marker cap =
      (e.listObjects name stem delimiter marker cap).map (fun p => p.map Head.unversioned) := by
  rw [listObjects, listObjects, bucket_unversioned]
  apply bind_map_eq
  intro b _
  exact congrArg Except.ok (ObjectStore.listObjects_unversioned _ _)

theorem listByToken_unversioned (e : Engine) (name : String) (stem delimiter token startAfter : Option String)
    (cap : Option Nat) : e.unversioned.listByToken name stem delimiter token startAfter cap =
      (e.listByToken name stem delimiter token startAfter cap).map
        (fun p => ⟨p.toPage.map Head.unversioned, p.nextToken⟩) := by
  have hpage : ∀ marker, (do
      let p ← e.unversioned.listObjects name stem delimiter marker cap
      .ok (⟨p, p.nextMarker.map ContinuationToken.encode⟩ : TokenPage)) =
      (do
        let p ← e.listObjects name stem delimiter marker cap
        .ok (⟨p, p.nextMarker.map ContinuationToken.encode⟩ : TokenPage)).map
          (fun p : TokenPage => ⟨p.toPage.map Head.unversioned, p.nextToken⟩) := by
    intro marker
    rw [listObjects_unversioned]
    apply bind_map_eq
    intro p _
    rw [Listing.Page.nextMarker_map]
    rfl
  cases token with
  | none => exact hpage startAfter
  | some token =>
      rw [listByToken, listByToken]
      cases ContinuationToken.decode token with
      | error cause => rfl
      | ok marker => exact hpage (some marker)

theorem createUpload_unversioned (e : Engine) (name key uploadId : String) (metadata : Metadata) :
    e.unversioned.createUpload name key uploadId metadata =
      (e.createUpload name key uploadId metadata).map (fun p => (p.1, p.2.unversioned)) := by
  rw [createUpload, createUpload, bucket_unversioned]
  apply bind_map_eq
  intro b _
  exact congrArg Except.ok (Prod.ext rfl (setSessions_unversioned e name b _))

theorem uploadPart_unversioned (e : Engine) (name key uploadId : String) (number : UInt32)
    (body : List UInt8) : e.unversioned.uploadPart name key uploadId number body =
      (e.uploadPart name key uploadId number body).map (fun p => (p.1, p.2.unversioned)) := by
  rw [uploadPart, uploadPart, session_unversioned]
  apply bind_map_eq
  rintro ⟨b, u⟩ _
  exact congrArg Except.ok (Prod.ext rfl (setSessions_unversioned e name b _))

theorem completeUpload_unversioned (e : Engine) (name key uploadId : String) (choice : List PartChoice) :
    e.unversioned.completeUpload name key uploadId choice =
      (e.completeUpload name key uploadId choice).map (fun p => (p.1.unversioned, p.2.unversioned)) := by
  rw [completeUpload, completeUpload, session_unversioned]
  apply bind_map_eq
  rintro ⟨b, u⟩ _
  dsimp only
  by_cases hchoice : choice = []
  · rw [if_pos hchoice, if_pos hchoice]
    rfl
  · rw [if_neg hchoice, if_neg hchoice]
    cases u.choose none choice with
    | error cause => cases cause <;> rfl
    | ok parts =>
        exact congrArg Except.ok
          (write_unversioned e name { b with sessions := b.sessions.erase uploadId } (fun _ => rfl))

theorem abortUpload_unversioned (e : Engine) (name key uploadId : String) :
    e.unversioned.abortUpload name key uploadId = (e.abortUpload name key uploadId).map unversioned := by
  rw [abortUpload, abortUpload, session_unversioned]
  apply bind_map_eq
  rintro ⟨b, u⟩ _
  exact congrArg Except.ok (setSessions_unversioned e name b _)

theorem listParts_unversioned (e : Engine) (name key uploadId : String) (marker : Option UInt32)
    (cap : Option Nat) :
    e.unversioned.listParts name key uploadId marker cap = e.listParts name key uploadId marker cap := by
  rw [listParts, listParts, session_unversioned]
  cases e.session name key uploadId <;> rfl

theorem listUploads_unversioned (e : Engine) (name : String) (stem token : Option String) (cap : Option Nat) :
    e.unversioned.listUploads name stem token cap = e.listUploads name stem token cap := by
  rw [listUploads, listUploads, bucket_unversioned]
  cases e.bucket name <;> rfl

/-- A request that knows no versions is answered as if there were none. -/
theorem answer_unversioned (he : e.Matched) {r : Request} (hr : r.versionUnaware = true) :
    e.unversioned.answer r = (e.answer r).map (fun p => (p.1.unversioned, p.2.unversioned)) := by
  cases r with
  | createBucket name =>
      rw [answer, answer, createBucket_unversioned]
      cases e.createBucket name <;> rfl
  | deleteBucket name =>
      rw [answer, answer, deleteBucket_unversioned]
      cases e.deleteBucket name <;> rfl
  | putObject name key body metadata =>
      rw [answer, answer, putObject_unversioned]
      cases e.putObject name key body metadata <;> rfl
  | getObject name key =>
      rw [answer, answer, getObject_unversioned]
      cases e.getObject name key <;> rfl
  | headObject name key =>
      rw [answer, answer, getObject_unversioned]
      cases e.getObject name key <;> rfl
  | deleteObject name key =>
      rw [answer, answer, deleteObject_unversioned he]
      cases e.deleteObject name key <;> rfl
  | listObjects name stem delimiter marker cap =>
      rw [answer, answer, listObjects_unversioned]
      cases e.listObjects name stem delimiter marker cap <;> rfl
  | listByToken name stem delimiter token startAfter cap =>
      rw [answer, answer, listByToken_unversioned]
      cases e.listByToken name stem delimiter token startAfter cap <;> rfl
  | createUpload name key uploadId metadata =>
      rw [answer, answer, createUpload_unversioned]
      cases e.createUpload name key uploadId metadata <;> rfl
  | uploadPart name key uploadId number body =>
      rw [answer, answer, uploadPart_unversioned]
      cases e.uploadPart name key uploadId number body <;> rfl
  | completeUpload name key uploadId choice =>
      rw [answer, answer, completeUpload_unversioned]
      cases e.completeUpload name key uploadId choice <;> rfl
  | abortUpload name key uploadId =>
      rw [answer, answer, abortUpload_unversioned]
      cases e.abortUpload name key uploadId <;> rfl
  | listParts name key uploadId marker cap =>
      rw [answer, answer, listParts_unversioned]
      cases e.listParts name key uploadId marker cap <;> rfl
  | listUploads name stem token cap =>
      rw [answer, answer, listUploads_unversioned]
      cases e.listUploads name stem token cap <;> rfl
  | _ => cases hr

theorem step_unversioned (he : e.Matched) {r : Request} (hr : r.versionUnaware = true) :
    e.unversioned.step r = ((e.step r).1.map Reply.unversioned, (e.step r).2.unversioned) := by
  rw [step, step, answer_unversioned he hr]
  cases e.answer r with
  | error cause => rfl
  | ok p => rfl

theorem step_setsVersioning (e : Engine) {r : Request} (hr : r.setsVersioning = true) :
    (e.step r).2.unversioned = e.unversioned := by
  cases r with
  | putVersioning name status =>
      rw [step, answer]
      cases h : e.putVersioning name status with
      | error cause => rfl
      | ok e' => exact putVersioning_unversioned h
  | _ => cases hr

theorem not_setsVersioning {r : Request} (hr : r.versionUnaware = true) : r.setsVersioning = false := by
  cases r with
  | putVersioning => cases hr
  | _ => rfl

theorem length_run (e : Engine) (rs : List Request) : (e.run rs).1.length = rs.length := by
  induction rs generalizing e with
  | nil => rfl
  | cons r rs ih => exact congrArg Nat.succ (ih (e.step r).2)

/-- The outcomes of a run, without those of setting versioning, as a client that knows no versions
reads them. -/
def seen (e : Engine) (rs : List Request) : List (Except StoreError Reply) :=
  ((rs.zip (e.run rs).1).filter (fun p => !p.1.setsVersioning)).map (fun p => p.2.map Reply.unversioned)

theorem seen_cons (e : Engine) (r : Request) (rs : List Request) : e.seen (r :: rs) =
    if r.setsVersioning then (e.step r).2.seen rs
    else (e.step r).1.map Reply.unversioned :: (e.step r).2.seen rs := by
  have hzip : (r :: rs).zip (e.run (r :: rs)).1 = (r, (e.step r).1) :: rs.zip ((e.step r).2.run rs).1 := rfl
  rw [seen, hzip, List.filter_cons]
  cases r.setsVersioning <;> rfl

theorem seen_unversioned (he : e.Matched) {rs : List Request}
    (hrs : ∀ r ∈ rs, r.setsVersioning = true ∨ r.versionUnaware = true) :
    e.seen rs = (e.unversioned.run (rs.filter (fun r => !r.setsVersioning))).1 := by
  induction rs generalizing e with
  | nil => rfl
  | cons r rs ih =>
      obtain ⟨hr, hrs⟩ := List.forall_mem_cons.mp hrs
      rw [seen_cons, ih (he.step r) hrs]
      rcases hr with hsets | hunaware
      · rw [if_pos hsets, step_setsVersioning e hsets, List.filter_cons_of_neg (by simp [hsets])]
      · have hsets := not_setsVersioning hunaware
        have hstep := step_unversioned he hunaware
        rw [if_neg (by simp [hsets]), List.filter_cons_of_pos (by simp [hsets]), run, hstep]

theorem seen_eq_map {rs : List Request} (hrs : ∀ r ∈ rs, r.versionUnaware = true) (e : Engine) :
    e.seen rs = (e.run rs).1.map (fun outcome => outcome.map Reply.unversioned) := by
  have hkeep : (rs.zip (e.run rs).1).filter (fun p => !p.1.setsVersioning) = rs.zip (e.run rs).1 := by
    rw [List.filter_eq_self]
    intro p hp
    rw [not_setsVersioning (hrs p.1 (List.of_mem_zip hp).1), Bool.not_false]
  rw [seen, hkeep]
  conv_rhs => rw [← List.map_snd_zip (length_run e rs).le, List.map_map]
  rfl

/-- Settings of versioning that come in between change nothing in what clients that know no versions
are told, whatever IDs the two runs draw. -/
theorem versioning_invisible (settings : Settings) (first first' : UInt64) {plain mixed : List Request}
    (hplain : ∀ r ∈ plain, r.versionUnaware = true)
    (hmixed : mixed.filter (fun r => !r.setsVersioning) = plain) :
    (fresh settings first).seen mixed =
      ((fresh settings first').run plain).1.map (fun outcome => outcome.map Reply.unversioned) := by
  have hmatched : ∀ n, (fresh settings n).Matched := by
    intro n name b hb
    rw [fresh_empty] at hb
    cases hb
  have hunversioned : (fresh settings first).unversioned = (fresh settings first').unversioned := rfl
  have hrs : ∀ r ∈ mixed, r.setsVersioning = true ∨ r.versionUnaware = true := by
    intro r hr
    cases hsets : r.setsVersioning with
    | true => exact .inl rfl
    | false => exact .inr (hplain r (hmixed ▸ List.mem_filter.mpr ⟨hr, by rw [hsets]; rfl⟩))
  have hself : plain.filter (fun r => !r.setsVersioning) = plain := by
    rw [← hmixed, List.filter_filter]
    simp
  calc (fresh settings first).seen mixed
      = ((fresh settings first).unversioned.run plain).1 := by rw [seen_unversioned (hmatched first) hrs, hmixed]
    _ = (fresh settings first').seen plain := by
        rw [hunversioned, seen_unversioned (hmatched first') (fun r hr => .inr (hplain r hr)), hself]
    _ = _ := seen_eq_map hplain _

theorem versioning_invisible_to_deletes :
    (fresh {} 1).seen [.createBucket "b", .putObject "b" "k" [] {}, .putVersioning "b" "Enabled",
      .deleteObject "b" "k", .putVersioning "b" "Suspended", .getObject "b" "k", .deleteBucket "b"] =
    ((fresh {} 7).run [.createBucket "b", .putObject "b" "k" [] {}, .deleteObject "b" "k",
      .getObject "b" "k", .deleteBucket "b"]).1.map (fun outcome => outcome.map Reply.unversioned) :=
  versioning_invisible {} 1 7 (by decide) rfl

end Engine

end BucketStore
