import BucketStore.Proofs.Engine.Locality
import BucketStore.Proofs.Store.KeyEdits

namespace BucketStore

/-- The bucket and the key that a request is addressed to, if it is to change what they hold. -/
def Request.address? : Request → Option (String × String)
  | .putObject name key _ _ | .deleteObject name key | .deleteVersion name key _ | .uploadPart name key _ _ _
  | .completeUpload name key _ _ | .abortUpload name key _ => some (name, key)
  | _ => none

def Request.upload? : Request → Option String
  | .uploadPart _ _ uploadId _ _ | .completeUpload _ _ uploadId _ | .abortUpload _ _ uploadId => some uploadId
  | _ => none

theorem Request.target?_of_address? {r : Request} {name key : String} (h : r.address? = some (name, key)) :
    r.target? = some name := by
  cases r <;> cases h <;> rfl

namespace Bucket

variable {n : UInt64} {name key other uploadId : String} {b c : Bucket} {r : Request}

/-- What becomes of one key of a bucket, and of one upload, which is replaced or dropped. -/
structure Edit where
  store : KeyEdit
  session : Option (String × Option Upload)

def Edit.onSessions (d : Edit) (s : Sessions) : Sessions :=
  match d.session with
  | none => s
  | some (id, u) => s.settle id u

theorem Edit.onSessions_none {d : Edit} (h : d.session = none) (s : Sessions) : d.onSessions s = s := by
  rw [onSessions, h]

theorem Edit.onSessions_some {d : Edit} {id : String} {u : Option Upload} (h : d.session = some (id, u))
    (s : Sessions) : d.onSessions s = s.settle id u := by
  rw [onSessions, h]

def edit (key : String) (d : Edit) (b : Bucket) : Bucket :=
  { b with store := b.store.edit key d.store, sessions := d.onSessions b.sessions }

def Edit.At (key : String) (b : Bucket) (d : Edit) : Prop :=
  ∀ id u, d.session = some (id, u) → (∃ w, b.upload? key id = some w) ∧ ∀ w, u = some w → w.id = id ∧ w.key = key

/-- Two buckets show the same of one key to all requests that are addressed to it. -/
structure SameAt (key : String) (b c : Bucket) : Prop where
  versioning : c.versioning = b.versioning
  dropped : ∀ id, (c.store.dropVersion key id).1 = (b.store.dropVersion key id).1
  upload : ∀ id, c.upload? key id = b.upload? key id

theorem SameAt.refl (key : String) (b : Bucket) : SameAt key b b := ⟨rfl, fun _ => rfl, fun _ => rfl⟩

theorem sameAt_edit {d : Edit} (h : other ≠ key) (hd : d.At key b) : SameAt other b (b.edit key d) := by
  refine ⟨rfl, fun id => ObjectStore.dropped_edit_of_ne h, fun id => ?_⟩
  rw [edit, upload?, upload?]
  cases hs : d.session with
  | none => rw [Edit.onSessions_none hs]
  | some p =>
      obtain ⟨edited, u⟩ := p
      obtain ⟨⟨w, hw⟩, hu⟩ := hd edited u hs
      obtain ⟨hfind, hkey⟩ := upload?_eq_some_iff.mp hw
      rw [Edit.onSessions_some hs, Sessions.find?_settle (fun v hv => (hu v hv).1)]
      split
      · rename_i hid
        have hother : ∀ v : Upload, v.key = key → (some v).filter (fun u => u.key = other) = none := by
          intro v hv
          rw [Option.filter_some, if_neg (by simpa [hv] using h.symm)]
        rw [hid, hfind, Option.bind_some, hother w hkey]
        cases u with
        | none => rfl
        | some v => exact hother v (hu v rfl).2
      · rfl

theorem edit_comm {d d' : Edit} (h : other ≠ key) (hd : d.At key b) (hd' : d'.At other b) :
    (b.edit key d).edit other d' = (b.edit other d').edit key d := by
  have hsessions : d'.onSessions (d.onSessions b.sessions) = d.onSessions (d'.onSessions b.sessions) := by
    cases hs : d.session with
    | none => rw [Edit.onSessions_none hs, Edit.onSessions_none hs]
    | some p =>
        cases hs' : d'.session with
        | none => rw [Edit.onSessions_none hs', Edit.onSessions_none hs']
        | some q =>
            obtain ⟨id, u⟩ := p
            obtain ⟨id', u'⟩ := q
            obtain ⟨⟨w, hw⟩, hu⟩ := hd id u hs
            obtain ⟨⟨w', hw'⟩, hu'⟩ := hd' id' u' hs'
            obtain ⟨hfind, hkey⟩ := upload?_eq_some_iff.mp hw
            obtain ⟨hfind', hkey'⟩ := upload?_eq_some_iff.mp hw'
            have hne : id ≠ id' := by
              rintro rfl
              rw [hfind] at hfind'
              cases hfind'
              exact h (hkey'.symm.trans hkey)
            simp only [Edit.onSessions_some hs, Edit.onSessions_some hs']
            exact Sessions.settle_comm hne (fun v hv => (hu v hv).1) (fun v hv => (hu' v hv).1)
  simp only [edit, ObjectStore.edit_comm h, hsessions]

theorem draw_of_still {status : Versioning} (h : status ≠ .enabled) (n m : UInt64) :
    status.draw n = ((status.draw m).1, n) := by
  cases status with
  | unset | suspended => rfl
  | enabled => exact absurd rfl h

theorem SameAt.draw (h : SameAt key b c) (hstill : b.versioning ≠ .enabled) (n m : UInt64) :
    c.versioning.draw n = ((b.versioning.draw m).1, n) := by
  rw [h.versioning, draw_of_still hstill n m]

theorem Edit.at_of_no_session (s : KeyEdit) : Edit.At key b ⟨s, none⟩ := fun _ _ h => by cases h

theorem Edit.at_of_upload {id : String} {u : Upload} {r : Option Upload} (hu : b.upload? key id = some u)
    (hr : ∀ w, r = some w → w.id = u.id ∧ w.key = u.key) (s : KeyEdit) : Edit.At key b ⟨s, some (id, r)⟩ := by
  rintro _ _ ⟨rfl⟩
  obtain ⟨hfind, hkey⟩ := upload?_eq_some_iff.mp hu
  exact ⟨⟨u, hu⟩, fun w hw =>
    ⟨(hr w hw).1.trans (Sessions.id_of_find? hfind), (hr w hw).2.trans hkey⟩⟩

/-- Where versioning is not enabled, a request makes an edit of its key, and what the key shows decides on it. -/
def EditedBy (r : Request) (key : String) (b : Bucket) : Prop :=
  ∃ d : Edit, d.At key b ∧ ∀ n c, SameAt key b c → r.onTarget n c = (c.edit key d, n)

theorem editedBy_write (hr : r.address? = some (name, key)) (hu : r.upload? = none)
    (hstill : b.versioning ≠ .enabled) : EditedBy r key b := by
  cases r with
  | putObject _ key body metadata =>
      cases hr
      refine ⟨⟨.add (.object (Object.ofBody key (b.versioning.draw 0).1 body metadata)), none⟩,
        Edit.at_of_no_session _, fun n c hc => ?_⟩
      rw [Request.onTarget, hc.draw hstill n 0, ObjectStore.add_eq_edit]
      rfl
  | deleteObject _ key =>
      cases hr
      cases hid : (b.versioning.draw 0).1 with
      | none =>
          refine ⟨⟨.remove, none⟩, Edit.at_of_no_session _, fun n c hc => ?_⟩
          rw [Request.onTarget, hc.draw hstill n 0, hid]
          dsimp only
          rw [ObjectStore.remove_eq_edit]
          rfl
      | some id =>
          refine ⟨⟨.add (.marker ⟨key, id⟩), none⟩, Edit.at_of_no_session _, fun n c hc => ?_⟩
          rw [Request.onTarget, hc.draw hstill n 0, hid]
          dsimp only
          rw [ObjectStore.add_eq_edit]
          rfl
  | deleteVersion _ key id =>
      cases hr
      refine ⟨⟨.drop id, none⟩, Edit.at_of_no_session _, fun n c hc => ?_⟩
      rw [Request.onTarget, without, ObjectStore.dropVersion_eq_edit]
      rfl
  | uploadPart | completeUpload | abortUpload => cases hu
  | _ => cases hr

theorem onTarget_of_no_upload (hr : r.address? = some (name, key)) (hu : r.upload? = some uploadId)
    (h : c.upload? key uploadId = none) (n : UInt64) : r.onTarget n c = (c, n) := by
  cases r with
  | uploadPart | completeUpload | abortUpload =>
      cases hr
      cases hu
      rw [Request.onTarget, h]
  | _ => cases hu

theorem edit_keep (key : String) (b : Bucket) : b.edit key ⟨.keep, none⟩ = b := by
  rw [edit, ObjectStore.edit_keep]
  rfl

theorem editedBy_upload {u : Upload} (hr : r.address? = some (name, key)) (hid : r.upload? = some uploadId)
    (hu : b.upload? key uploadId = some u) (hstill : b.versioning ≠ .enabled) : EditedBy r key b := by
  obtain ⟨hfind, hkey⟩ := upload?_eq_some_iff.mp hu
  cases r with
  | uploadPart _ key uploadId number body =>
      cases hr
      cases hid
      refine ⟨⟨.keep, some (uploadId, some (u.put (Part.ofBody number body)))⟩,
        Edit.at_of_upload hu (fun w hw => by cases hw; exact ⟨rfl, rfl⟩) _, fun n c hc => ?_⟩
      have hput : (u.put (Part.ofBody number body)).id = uploadId := (Sessions.id_of_find? hfind : u.id = uploadId)
      rw [Request.onTarget, hc.upload, hu]
      dsimp only
      rw [Sessions.update_eq_settle, hput, edit, ObjectStore.edit_keep]
      rfl
  | completeUpload _ key uploadId choice =>
      cases hr
      cases hid
      cases hparts : (if choice = [] then none else (u.choose none choice).toOption) with
      | none =>
          refine ⟨⟨.keep, none⟩, Edit.at_of_no_session _, fun n c hc => ?_⟩
          rw [Request.onTarget, hc.upload, hu, edit_keep]
          dsimp only
          rw [hparts]
      | some parts =>
          refine ⟨⟨.add (.object (u.assemble parts (b.versioning.draw 0).1)), some (uploadId, none)⟩,
            Edit.at_of_upload hu (fun w hw => by cases hw) _, fun n c hc => ?_⟩
          have hobject : (Version.object (u.assemble parts (b.versioning.draw 0).1)).key = key := hkey
          rw [Request.onTarget, hc.upload, hu]
          dsimp only
          rw [hparts]
          dsimp only
          rw [hc.draw hstill n 0, ObjectStore.add_eq_edit, Sessions.erase_eq_settle, hobject]
          rfl
  | abortUpload _ key uploadId =>
      cases hr
      cases hid
      refine ⟨⟨.keep, some (uploadId, none)⟩, Edit.at_of_upload hu (fun w hw => by cases hw) _, fun n c hc => ?_⟩
      rw [Request.onTarget, hc.upload, hu]
      dsimp only
      rw [Sessions.erase_eq_settle, edit, ObjectStore.edit_keep]
      rfl
  | _ => cases hid

theorem editedBy_of_address (hr : r.address? = some (name, key)) (hstill : b.versioning ≠ .enabled) :
    EditedBy r key b := by
  cases hid : r.upload? with
  | none => exact editedBy_write hr hid hstill
  | some uploadId =>
      cases hu : b.upload? key uploadId with
      | none =>
          refine ⟨⟨.keep, none⟩, Edit.at_of_no_session _, fun n c hc => ?_⟩
          rw [onTarget_of_no_upload hr hid ((hc.upload uploadId).trans hu), edit_keep]
      | some u => exact editedBy_upload hr hid hu hstill

end Bucket

namespace Engine

variable {e e' : Engine} {name name' key key' : String} {b b' : Bucket} {r r' : Request}

/-- A bucket that is not enabled gives out no counter values. -/
def Still (name : String) (e : Engine) : Prop := ∀ b, e.buckets.get? name = some b → b.versioning ≠ .enabled

theorem reply_of_sameAt (hr : r.address? = some (name, key)) (hb : e.buckets.get? name = some b)
    (hb' : e'.buckets.get? name = some b') (h : b.SameAt key b') (hstill : b.versioning ≠ .enabled) :
    (e'.step r).1 = (e.step r).1 := by
  have hbucket := bucket_eq_ok.mpr hb
  have hbucket' := bucket_eq_ok.mpr hb'
  have hdraw := h.draw hstill e'.nextVersion e.nextVersion
  cases r with
  | putObject _ key body metadata =>
      cases hr
      simp only [step, answer, putObject, hbucket, hbucket', bind, Except.bind, Except.map, write, hdraw]
  | deleteObject _ key =>
      cases hr
      simp only [step, answer, deleteObject, hbucket, hbucket', bind, Except.bind, hdraw]
      rcases b.versioning.draw e.nextVersion with ⟨_ | id, next⟩ <;> rfl
  | deleteVersion _ key id =>
      cases hr
      have hdropped := h.dropped id
      simp only [step, answer, deleteVersion, hbucket, hbucket', bind, Except.bind]
      rcases hd : b.store.dropVersion key id with ⟨found, store⟩
      rcases hd' : b'.store.dropVersion key id with ⟨found', store'⟩
      rw [hd, hd'] at hdropped
      obtain rfl : found' = found := hdropped
      cases found' <;> rfl
  | uploadPart _ key uploadId number body =>
      cases hr
      simp only [step, answer, uploadPart, session_of_bucket hb, session_of_bucket hb', h.upload]
      cases b.upload? key uploadId <;> rfl
  | completeUpload _ key uploadId choice =>
      cases hr
      simp only [step, answer, completeUpload, session_of_bucket hb, session_of_bucket hb', h.upload]
      cases b.upload? key uploadId with
      | none => rfl
      | some u =>
          simp only [bind, Except.bind]
          by_cases hchoice : choice = []
          · simp only [if_pos hchoice]
            rfl
          · simp only [if_neg hchoice]
            rcases u.choose none choice with (_ | number) | parts
            · rfl
            · rfl
            · simp only [Except.map, write, hdraw]
  | abortUpload _ key uploadId =>
      cases hr
      simp only [step, answer, abortUpload, session_of_bucket hb, session_of_bucket hb', h.upload]
      cases b.upload? key uploadId <;> rfl
  | _ => cases hr

theorem reply_of_absent (hr : r.address? = some (name, key)) (hb : e.buckets.get? name = none)
    (hb' : e'.buckets.get? name = none) : (e'.step r).1 = (e.step r).1 := by
  cases r with
  | putObject | deleteObject | deleteVersion =>
      cases hr
      simp only [step, answer, putObject, deleteObject, deleteVersion, bucket, hb, hb']
      rfl
  | uploadPart | completeUpload | abortUpload =>
      cases hr
      simp only [step, answer, uploadPart, completeUpload, abortUpload, session, hb, hb']
      rfl
  | _ => cases hr

theorem step_edit (hr : r.address? = some (name, key)) (hstill : b.versioning ≠ .enabled) :
    ∃ d : Bucket.Edit, d.At key b ∧ ∀ (e' : Engine) b', e'.buckets.get? name = some b' → b.SameAt key b' →
      (e'.step r).2 = e'.setBucket name (b'.edit key d) := by
  obtain ⟨d, hd, hedit⟩ := Bucket.editedBy_of_address hr hstill
  refine ⟨d, hd, fun e' b' hb' h => ?_⟩
  rw [step_target e' (Request.target?_of_address? hr), alter_of_bucket hb', hedit _ b' h]
  rfl

theorem step_update (hr : r.address? = some (name, key)) (hs : e.Still name) :
    ∃ g : Bucket → Bucket, ∀ e' : Engine, e'.buckets.get? name = e.buckets.get? name →
      (e'.step r).2 = e'.update name g := by
  cases hb : e.buckets.get? name with
  | none =>
      refine ⟨id, fun e' hb' => ?_⟩
      rw [step_of_absent (Request.target?_of_address? hr) hb', update_of_absent hb']
  | some b =>
      obtain ⟨d, _, hedit⟩ := step_edit hr (hs b hb)
      refine ⟨Bucket.edit key d, fun e' hb' => ?_⟩
      rw [hedit e' b hb' (.refl key b), update_of_bucket hb']

theorem get?_step_of_ne (hr : r.address? = some (name, key)) (h : name' ≠ name) :
    (e.step r).2.buckets.get? name' = e.buckets.get? name' := by
  rw [step_target e (Request.target?_of_address? hr), get?_alter, if_neg h]

theorem reply_after (hr : r.address? = some (name, key)) (hr' : r'.address? = some (name', key'))
    (hne : (name, key) ≠ (name', key')) (hs : e.Still name) : ((e.step r').2.step r).1 = (e.step r).1 := by
  by_cases hname : name = name'
  · subst hname
    have hkey : key ≠ key' := fun h => hne (by rw [h])
    cases hb : e.buckets.get? name with
    | none => rw [step_of_absent (Request.target?_of_address? hr') hb]
    | some b =>
        obtain ⟨d, hd, hedit⟩ := step_edit hr' (hs b hb)
        have hthere : (e.step r').2.buckets.get? name = some (b.edit key' d) := by
          rw [hedit e b hb (.refl key' b), get?_setBucket_self]
        exact reply_of_sameAt hr hb hthere (Bucket.sameAt_edit hkey hd) (hs b hb)
  · have hthere := get?_step_of_ne hr' (e := e) hname
    cases hb : e.buckets.get? name with
    | none => exact reply_of_absent hr hb (hthere.trans hb)
    | some b => exact reply_of_sameAt hr hb (hthere.trans hb) (.refl key b) (hs b hb)

theorem step_comm (hr : r.address? = some (name, key)) (hr' : r'.address? = some (name', key'))
    (hne : (name, key) ≠ (name', key')) (hs : e.Still name) (hs' : e.Still name') :
    ((e.step r).2.step r').2 = ((e.step r').2.step r).2 := by
  by_cases hname : name = name'
  · subst hname
    have hkey : key ≠ key' := fun h => hne (by rw [h])
    cases hb : e.buckets.get? name with
    | none =>
        rw [step_of_absent (Request.target?_of_address? hr) hb, step_of_absent (Request.target?_of_address? hr') hb,
          step_of_absent (Request.target?_of_address? hr) hb]
    | some b =>
        obtain ⟨d, hd, hedit⟩ := step_edit hr (hs b hb)
        obtain ⟨d', hd', hedit'⟩ := step_edit hr' (hs b hb)
        have hfound := get?_setBucket_self e name
        rw [hedit e b hb (.refl key b), hedit' e b hb (.refl key' b),
          hedit' _ _ (hfound _) (Bucket.sameAt_edit hkey.symm hd), hedit _ _ (hfound _) (Bucket.sameAt_edit hkey hd'),
          setBucket_setBucket, setBucket_setBucket, Bucket.edit_comm hkey.symm hd hd']
  · obtain ⟨g, hg⟩ := step_update hr hs
    obtain ⟨g', hg'⟩ := step_update hr' hs'
    rw [hg' _ (get?_step_of_ne hr (Ne.symm hname)), hg _ (get?_step_of_ne hr' hname), hg e rfl, hg' e rfl]
    exact alter_update_of_ne e name name' _ g (Ne.symm hname)

theorem Still.step (hs : e.Still name) (hr : r.address? = some (name', key')) : (e.step r).2.Still name := by
  by_cases hname : name = name'
  · subst hname
    intro b' hb'
    cases hb : e.buckets.get? name with
    | none =>
        rw [step_of_absent (Request.target?_of_address? hr) hb] at hb'
        exact hs b' hb'
    | some b =>
        obtain ⟨d, _, hedit⟩ := step_edit hr (hs b hb)
        rw [hedit e b hb (.refl key' b), get?_setBucket_self] at hb'
        cases hb'
        exact hs b hb
  · intro b hb
    rw [get?_step_of_ne hr hname] at hb
    exact hs b hb

/-- Requests of which no two are addressed to one key may come in any order: each is answered as before,
and they lead to the same engine. -/
theorem run_perm {rs rs' : List Request} (hperm : rs.Perm rs')
    (hdistinct : rs.Pairwise (fun r r' => r.address? ≠ r'.address?))
    (hstill : ∀ r ∈ rs, ∃ name key, r.address? = some (name, key) ∧ e.Still name) :
    (e.run rs').2 = (e.run rs).2 ∧ (rs'.zip (e.run rs').1).Perm (rs.zip (e.run rs).1) := by
  induction hperm generalizing e with
  | nil => exact ⟨rfl, .refl _⟩
  | cons r _ ih =>
      obtain ⟨_, hrest⟩ := List.pairwise_cons.mp hdistinct
      obtain ⟨⟨_, _, hr, _⟩, hlater⟩ := List.forall_mem_cons.mp hstill
      obtain ⟨hfinal, hreplies⟩ := ih (e := (e.step r).2) hrest (fun r' hr' => by
        obtain ⟨name', key', haddress, hs⟩ := hlater r' hr'
        exact ⟨name', key', haddress, hs.step hr⟩)
      exact ⟨hfinal, hreplies.cons _⟩
  | swap r r' rest =>
      obtain ⟨hfirst, _⟩ := List.pairwise_cons.mp hdistinct
      obtain ⟨⟨name', key', hr', hs'⟩, hlater⟩ := List.forall_mem_cons.mp hstill
      obtain ⟨name, key, hr, hs⟩ := hlater r List.mem_cons_self
      have hne : (name', key') ≠ (name, key) := fun heq =>
        hfirst r List.mem_cons_self (by rw [hr, hr', heq])
      have hstate := step_comm hr' hr hne hs' hs
      have hreply := reply_after hr' hr hne hs'
      have hreply' := reply_after hr hr' hne.symm hs
      refine ⟨congrArg (fun e => (run e rest).2) hstate.symm, ?_⟩
      simp only [run, List.zip_cons_cons, hstate, hreply, hreply']
      exact .swap _ _ _
  | trans hfirst _ ih ih' =>
      obtain ⟨hfinal, hreplies⟩ := ih hdistinct hstill
      obtain ⟨hfinal', hreplies'⟩ := ih' (hfirst.pairwise hdistinct (fun h => h.symm))
        (fun r hr => hstill r (hfirst.mem_iff.mpr hr))
      exact ⟨hfinal'.trans hfinal, hreplies'.trans hreplies⟩

end Engine

end BucketStore
