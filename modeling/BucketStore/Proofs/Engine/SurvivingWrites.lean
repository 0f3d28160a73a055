import BucketStore.Proofs.Engine.Moments
import BucketStore.Proofs.Store.Live
import BucketStore.Proofs.Store.Writing

namespace BucketStore

/-- The ID that a version written under this status goes by, the counter standing at `n`. -/
def Versioning.idOf (n : UInt64) : Versioning → String
  | unset | suspended => VersionId.null
  | enabled => VersionId.ofCounter n

/-- Whether a request that succeeds writes a version of the key, in a bucket of this status. -/
def Request.writes (name key : String) (status : Versioning) : Request → Bool
  | .putObject b k _ _ | .completeUpload b k _ _ => b = name ∧ k = key
  | .deleteObject b k => b = name ∧ k = key ∧ status ≠ .unset
  | _ => false

def Request.version? (e : Engine) (id : String) : Request → Option Version
  | .putObject _ key body metadata => some (.object (Object.ofBody key (some id) body metadata))
  | .completeUpload name key uploadId choice => (e.session name key uploadId).toOption.map (fun p =>
      .object (p.2.assemble (choice.filterMap (fun c => p.2.part? c.number)) (some id)))
  | .deleteObject _ key => some (.marker ⟨key, id⟩)
  | _ => none

/-- The version that a request has to write under a key, by the status of the bucket. -/
def Request.written? (name key : String) (e : Engine) (r : Request) : Option Version :=
  (e.versioning? name).bind (fun status =>
    if r.writes name key status then r.version? e (status.idOf e.nextVersion) else none)

/-- The version that the answer of a request reports as written under a key. -/
def Request.reported? (name key : String) : Request → Reply → Option Version
  | .putObject b k _ _, .object o | .completeUpload b k _ _, .object o =>
    if b = name ∧ k = key then some (.object o) else none
  | .deleteObject b k, .deletion d =>
    if b = name ∧ k = key then d.versionId.map (fun id => .marker ⟨k, id⟩) else none
  | _, _ => none

/-- Whether a request that succeeds ends `v`, an older version of the key, in a bucket of this status. -/
def Request.ends (name key : String) (v : Version) (status : Versioning) : Request → Bool
  | .putObject b k _ _ | .completeUpload b k _ _ | .deleteObject b k =>
    b = name ∧ k = key ∧ status.replaces v
  | .deleteVersion b k id => b = name ∧ k = key ∧ id = v.idOrNull
  | .deleteBucket b => b = name
  | .reset => true
  | _ => false

namespace Bucket

variable {name k key : String} {n n' : UInt64} {b b' : Bucket} {r : Request} {reply : Reply}

theorem Sound.history_add (hb : b.Sound n) {v : Version} (hkey : v.key = k)
    (hid : v.id? = (b.versioning.draw n).1) (key : String) :
    (b.store.add v).history key = (if k = key then some v else none).toList ++
      (b.store.history key).filter (fun w => !(k = key && b.versioning.replaces w)) := by
  subst hkey
  by_cases hkey : v.key = key
  · subst hkey
    rw [hb.store.history_add hb.status hid]
    simp
  · rw [ObjectStore.history_add_of_ne (Ne.symm hkey)]
    simp [hkey]

theorem Effect.history_eq (h : Effect name n b r reply b' n') (hb : b.Sound n) (key : String) :
    (b'.store.history key).map Version.identified =
      ((r.reported? name key reply).toList ++
        (b.store.history key).filter (fun v => !r.ends name key v b.versioning)).map Version.identified := by
  cases h with
  | keep | start | upload | abort => simp [Request.reported?, Request.ends]
  | configure => simpa [Request.reported?, Request.ends] using hb.store.history_migrate key
  | put k =>
      rw [hb.history_add (k := k) rfl rfl]
      simp [Request.reported?, Request.ends]
  | complete k uploadId choice u parts hu =>
      rw [hb.history_add (v := .object (u.assemble parts _)) (upload?_eq_some_iff.mp hu).2 rfl]
      simp [Request.reported?, Request.ends]
  | mark k id next hdraw =>
      rw [hb.history_add (k := k) rfl (by rw [hdraw]; rfl)]
      simp [Request.reported?, Request.ends]
  | forget k hunset =>
      rw [ObjectStore.history_remove (hb.status.mp hunset)]
      by_cases hkey : key = k
      · simp [Request.reported?, Request.ends, Deletion.placeholder, hunset, Versioning.replaces, hkey]
      · simp [Request.reported?, Request.ends, hkey, Ne.symm hkey]
  | drop k id =>
      rw [hb.store.history_dropVersion]
      by_cases hkey : key = k
      · simp [Request.reported?, Request.ends, hkey]
      · simp [Request.reported?, Request.ends, hkey, Ne.symm hkey]

theorem Effect.elsewhere (h : Effect k n b r reply b' n') (hk : k ≠ name) (key : String) :
    r.reported? name key reply = none ∧ ∀ v status, r.ends name key v status = false := by
  cases h <;> simp [Request.reported?, Request.ends, hk]

end Bucket

namespace Engine

variable {e e' : Engine} {name key : String} {r : Request} {reply : Reply}

theorem history_kept (hsame : e'.history name key = e.history name key)
    (hreported : r.reported? name key reply = none) (hends : ∀ v status, r.ends name key v status = false) :
    e'.history name key = (r.reported? name key reply).toList ++
      (e.history name key).filter (fun v => !(e.versioning? name).any (r.ends name key v)) := by
  simp [hsame, hreported, hends]

theorem elsewhere_of_reads (h : r.reads = true) :
    r.reported? name key reply = none ∧ ∀ v status, r.ends name key v status = false := by
  cases r with
  | createBucket | deleteBucket | putVersioning | putObject | deleteObject | deleteVersion | createUpload
  | uploadPart | completeUpload | abortUpload | reset | nextVersionId => cases h
  | _ => exact ⟨rfl, fun _ _ => rfl⟩

theorem Effect.history_eq (h : Effect e r reply e') (hs : e.Sound) (name key : String) :
    (e'.history name key).map Version.identified =
      ((r.reported? name key reply).toList ++ (e.history name key).filter
        (fun v => !(e.versioning? name).any (r.ends name key v))).map Version.identified := by
  cases h with
  | read r reply hr =>
      obtain ⟨hreported, hends⟩ : r.reported? name key reply = none ∧
        ∀ v status, r.ends name key v status = false := elsewhere_of_reads hr
      rw [← history_kept rfl hreported hends]
  | draw => rw [← history_kept rfl rfl (fun _ _ => rfl)]; rfl
  | create k habsent =>
      rw [← history_kept _ rfl (fun _ _ => rfl)]
      rw [history_setBucket]
      split
      · rename_i hk
        rw [hk, history_of_absent habsent]
        rfl
      · rfl
  | reset =>
      cases hb : e.buckets.get? name with
      | none => simp [history_of_absent hb, history_of_absent (e := e.reset) rfl, Request.reported?]
      | some b => simp [history_of_absent (e := e.reset) rfl, versioning?_of_bucket hb, Request.ends, Request.reported?]
  | delete k b hb =>
      rw [history_erase]
      by_cases hk : name = k
      · subst hk
        simp [versioning?_of_bucket hb, Request.ends, Request.reported?]
      · simp [hk, Ne.symm hk, Request.ends, Request.reported?]
  | bucket k b _ _ b' next hb h =>
      change ((e.setBucket k b').history name key).map _ = _
      rw [history_setBucket]
      by_cases hk : name = k
      · subst hk
        rw [if_pos rfl, h.history_eq (hs name b hb), history_of_bucket hb, versioning?_of_bucket hb]
        rfl
      · obtain ⟨hreported, hends⟩ := h.elsewhere (Ne.symm hk) key
        rw [if_neg hk, ← history_kept rfl hreported hends]

end Engine

def Version.content : Version → Option (List UInt8 × Metadata)
  | object o => some (o.body, o.metadata)
  | marker _ => none

def Request.content (e : Engine) : Request → Option (List UInt8 × Metadata)
  | .putObject _ _ body metadata => some (body, metadata)
  | .completeUpload name key id choice =>
    (e.session name key id).toOption.map (fun p =>
      ((choice.filterMap (fun c => p.2.part? c.number)).flatMap (·.body), p.2.metadata))
  | _ => none

theorem Upload.choose_eq_ok {u : Upload} {previous : Option UInt32} {choice : List PartChoice} {parts : List Part}
    (h : u.choose previous choice = .ok parts) : choice.filterMap (fun c => u.part? c.number) = parts := by
  induction choice generalizing previous parts with
  | nil => cases h; rfl
  | cons c rest ih =>
      rw [choose] at h
      split at h
      · cases h
      · split at h
        · cases h
        · rename_i p hp
          obtain ⟨tail, htail, rfl⟩ := Engine.map_eq_ok.mp h
          rw [List.filterMap_cons, (Option.filter_eq_some_iff.mp hp).1, ih htail]

namespace Engine

variable {e e' : Engine} {name key : String} {rs : List Request} {r : Request} {reply : Reply} {v : Version}

theorem Effect.reported (h : Effect e r reply e') (hv : r.reported? name key reply = some v) :
    v.content = r.content e ∧ v.key = key ∧
      ∃ status, e.versioning? name = some status ∧ status.draw e.nextVersion = (v.id?, e'.nextVersion) := by
  cases h with
  | read r reply hr =>
      rw [(elsewhere_of_reads hr).1] at hv
      cases hv
  | create | delete | draw | reset => cases hv
  | bucket k b _ _ b' next hb h =>
      cases h with
      | keep | configure | drop | start | upload | abort => cases hv
      | forget =>
          simp [Request.reported?, Deletion.placeholder] at hv
      | put j body metadata =>
          simp only [Request.reported?, Option.ite_none_right_eq_some, Option.some_inj] at hv
          obtain ⟨⟨rfl, rfl⟩, rfl⟩ := hv
          exact ⟨rfl, rfl, _, versioning?_of_bucket hb, rfl⟩
      | complete j uploadId choice u parts hu hne hparts =>
          simp only [Request.reported?, Option.ite_none_right_eq_some, Option.some_inj] at hv
          obtain ⟨⟨rfl, rfl⟩, rfl⟩ := hv
          refine ⟨?_, (Bucket.upload?_eq_some_iff.mp hu).2, _, versioning?_of_bucket hb, rfl⟩
          rw [Request.content, session_eq_ok.mpr ⟨hb, hu⟩, Except.toOption, Option.map_some]
          simp only [Upload.choose_eq_ok hparts]
          rfl
      | mark j id next hdraw =>
          simp only [Request.reported?, Option.ite_none_right_eq_some, Option.map_some, Option.some_inj] at hv
          obtain ⟨⟨rfl, rfl⟩, rfl⟩ := hv
          exact ⟨rfl, rfl, _, versioning?_of_bucket hb, hdraw⟩

end Engine

theorem Version.key_identified (v : Version) : v.identified.key = v.key := by
  cases v <;> rfl

theorem Version.content_identified (v : Version) : v.identified.content = v.content := by
  cases v <;> rfl

theorem Version.object?_identified (v : Version) : v.identified.object? = v.object?.map Object.identified := by
  cases v <;> rfl

theorem Versioning.getD_draw (status : Versioning) (n : UInt64) :
    (status.draw n).1.getD VersionId.null = status.idOf n := by
  cases status <;> rfl

namespace Engine

variable {e e' : Engine} {name key : String} {r : Request} {reply : Reply} {v : Version}

theorem written?_of_not_writes (h : ∀ status, r.writes name key status = false) : r.written? name key e = none := by
  simp [Request.written?, h]

theorem written?_eq_some : r.written? name key e = some v ↔ ∃ status, e.versioning? name = some status ∧
    r.writes name key status = true ∧ r.version? e (status.idOf e.nextVersion) = some v := by
  simp [Request.written?, Option.bind_eq_some_iff]

theorem written?_of_version? {status : Versioning} (hstatus : e.versioning? name = some status)
    (hversion : r.version? e (status.idOf e.nextVersion) = some v) :
    r.written? name key e = if r.writes name key status then some v else none := by
  rw [Request.written?, hstatus, Option.bind_some, hversion]

theorem isMarker_of_written? (h : r.written? name key e = some v) :
    v.isMarker = true ↔ r = .deleteObject name key := by
  obtain ⟨status, _, hwrites, hversion⟩ := written?_eq_some.mp h
  cases r with
  | putObject => cases hversion; exact ⟨nofun, nofun⟩
  | completeUpload =>
      obtain ⟨_, _, rfl⟩ := Option.map_eq_some_iff.mp hversion
      exact ⟨nofun, nofun⟩
  | deleteObject k j =>
      obtain ⟨rfl, rfl, _⟩ := of_decide_eq_true hwrites
      cases hversion
      exact ⟨fun _ => rfl, fun _ => rfl⟩
  | _ => cases hwrites

theorem not_writes_of_reads (h : r.reads = true) (status : Versioning) : r.writes name key status = false := by
  cases r with
  | createBucket | deleteBucket | putVersioning | putObject | deleteObject | deleteVersion | createUpload
  | uploadPart | completeUpload | abortUpload | reset | nextVersionId => cases h
  | _ => rfl

theorem not_writes_elsewhere {k : String} {n n' : UInt64} {b b' : Bucket} (h : Bucket.Effect k n b r reply b' n')
    (hk : k ≠ name) (status : Versioning) : r.writes name key status = false := by
  cases h <;> simp [Request.writes, hk]

/-- What a request that succeeds reports is the version that it had to write, and it reports nothing else. -/
theorem Effect.written?_eq (h : Effect e r reply e') (name key : String) :
    r.written? name key e = (r.reported? name key reply).map Version.identified := by
  cases h with
  | read r reply hr => rw [written?_of_not_writes (not_writes_of_reads hr), (elsewhere_of_reads hr).1]; rfl
  | create | delete | draw | reset => exact written?_of_not_writes (fun _ => rfl)
  | bucket k b _ _ b' next hb h =>
      by_cases hk : k = name
      · subst hk
        have hstatus := versioning?_of_bucket hb
        cases h with
        | keep | configure | drop | start | upload | abort => exact written?_of_not_writes (fun _ => rfl)
        | put j body metadata =>
            have hversion : Request.version? e (b.versioning.idOf e.nextVersion) (.putObject k j body metadata) = some
                (Version.object (Object.ofBody j (b.versioning.draw e.nextVersion).1 body metadata)).identified := by
              rw [← Versioning.getD_draw]
              rfl
            rw [written?_of_version? hstatus hversion]
            by_cases hj : j = key <;> simp [Request.writes, Request.reported?, hj]
        | complete j uploadId choice u parts hu hne hparts =>
            have hversion : Request.version? e (b.versioning.idOf e.nextVersion) (.completeUpload k j uploadId choice) =
                some (Version.object (u.assemble parts (b.versioning.draw e.nextVersion).1)).identified := by
              rw [Request.version?, session_eq_ok.mpr ⟨hb, hu⟩, Except.toOption, Option.map_some,
                Upload.choose_eq_ok hparts, ← Versioning.getD_draw]
              rfl
            rw [written?_of_version? hstatus hversion]
            by_cases hj : j = key <;> simp [Request.writes, Request.reported?, hj]
        | mark j id next hdraw =>
            have hid : b.versioning.idOf e.nextVersion = id := by rw [← Versioning.getD_draw, hdraw]; rfl
            have hset : b.versioning ≠ .unset := by
              rintro hunset
              rw [hunset] at hdraw
              cases hdraw
            rw [written?_of_version? hstatus rfl, hid]
            by_cases hj : j = key <;> simp [Request.writes, Request.reported?, hj, hset, Version.identified]
        | forget j hunset =>
            rw [written?_of_version? hstatus rfl]
            simp [Request.writes, Request.reported?, hunset, Deletion.placeholder]
      · rw [written?_of_not_writes (not_writes_elsewhere h hk), (h.elsewhere hk key).1]
        rfl

theorem Effect.isSome_written? (h : Effect e r reply e') (name key : String) :
    (r.written? name key e).isSome = (e.versioning? name).any (r.writes name key) := by
  cases hs : e.versioning? name with
  | none => simp [Request.written?, hs]
  | some status =>
      rw [Request.written?, hs, Option.bind_some, Option.any_some]
      cases hwrites : r.writes name key status with
      | false => rfl
      | true =>
          rw [if_pos rfl]
          cases r with
          | putObject | deleteObject => rfl
          | completeUpload =>
              cases h with
              | read _ _ hr => cases hr
              | bucket _ _ _ _ _ _ hb h =>
                  cases h with
                  | complete _ _ _ _ _ hu => rw [Request.version?, session_eq_ok.mpr ⟨hb, hu⟩]; rfl
          | _ => cases hwrites

end Engine

namespace Moment

variable {m : Moment} {name key : String} {v : Version}

def writes (name key : String) (m : Moment) : Bool :=
  m.succeeds && (m.engine.versioning? name).any (m.request.writes name key)

def written? (name key : String) (m : Moment) : Option Version :=
  if m.succeeds then m.request.written? name key m.engine else none

def reported? (name key : String) (m : Moment) : Option Version :=
  m.outcome.toOption.bind (m.request.reported? name key)

def ends (name key : String) (v : Version) (m : Moment) : Bool :=
  m.succeeds && (m.engine.versioning? name).any (m.request.ends name key v)

theorem reported_eq_some (h : m.reported? name key = some v) :
    ∃ reply, m.outcome = .ok reply ∧ m.request.reported? name key reply = some v ∧
      Engine.Effect m.engine m.request reply m.after := by
  rcases m.cases_effect with ⟨cause, houtcome, _⟩ | ⟨reply, houtcome, heffect⟩
  · rw [reported?, houtcome] at h
    cases h
  · rw [reported?, houtcome] at h
    exact ⟨reply, houtcome, h, heffect⟩

theorem written?_eq (m : Moment) (name key : String) :
    m.written? name key = (m.reported? name key).map Version.identified := by
  rcases m.cases_effect with ⟨cause, houtcome, _⟩ | ⟨reply, houtcome, heffect⟩
  · simp [written?, reported?, houtcome, Except.toOption, not_succeeds_of_error houtcome]
  · simp [written?, reported?, houtcome, Except.toOption, succeeds_of_ok houtcome, heffect.written?_eq]

theorem ends_identified (v : Version) (m : Moment) : m.ends name key v.identified = m.ends name key v := by
  have hrequest : m.request.ends name key v.identified = m.request.ends name key v := by
    funext status
    cases m.request <;> cases status <;>
      simp [Request.ends, Versioning.replaces, Version.idOrNull_identified]
  rw [ends, ends, hrequest]

theorem history_after (hs : m.engine.Sound) (name key : String) :
    (m.after.history name key).map Version.identified = (m.written? name key).toList ++
      ((m.engine.history name key).filter (fun v => !m.ends name key v)).map Version.identified := by
  rw [written?_eq, Option.toList_map, ← List.map_append]
  rcases m.cases_effect with ⟨cause, houtcome, hafter⟩ | ⟨reply, houtcome, heffect⟩
  · simp [hafter, reported?, houtcome, Except.toOption, ends, not_succeeds_of_error houtcome]
  · simp [heffect.history_eq hs, reported?, houtcome, Except.toOption, ends, succeeds_of_ok houtcome]

end Moment

structure Write where
  time : Nat
  version : Version

def Moment.write? (name key : String) (m : Moment) : Option Write :=
  (m.written? name key).map (fun v => ⟨m.time, v⟩)

/-- Whether nothing in a stretch of a run ends `v`. -/
def spared (name key : String) (ms : List Moment) (v : Version) : Bool := ms.all (fun m => !m.ends name key v)

/-- The writes of a key that nothing later in the run ends, the last one first. -/
def survivors (name key : String) : List Moment → List Write
  | [] => []
  | m :: later =>
    survivors name key later ++ (m.write? name key).toList.filter (fun w => spared name key later w.version)

namespace Engine

variable {e : Engine} {name key : String} {rs : List Request} {b : Bucket} {ms : List Moment} {w : Write}

theorem mem_survivors : w ∈ survivors name key ms ↔
    ∃ before m after, ms = before ++ m :: after ∧ m.write? name key = some w ∧
      spared name key after w.version = true := by
  induction ms with
  | nil => simp [survivors]
  | cons m later ih =>
      rw [survivors, List.mem_append, ih]
      constructor
      · rintro (⟨before, m', after, rfl, hw, hafter⟩ | hw)
        · exact ⟨m :: before, m', after, rfl, hw, hafter⟩
        · obtain ⟨hmem, hlater⟩ := List.mem_filter.mp hw
          exact ⟨[], m, later, rfl, Option.mem_toList.mp hmem, hlater⟩
      · rintro ⟨before, m', after, heq, hw, hafter⟩
        cases before with
        | nil =>
            obtain ⟨rfl, rfl⟩ := List.cons.inj heq
            exact .inr (List.mem_filter.mpr ⟨Option.mem_toList.mpr hw, hafter⟩)
        | cons _ before =>
            obtain ⟨rfl, rfl⟩ := List.cons.inj heq
            exact .inl ⟨before, m', after, rfl, hw, hafter⟩

theorem survivors_ordered (h : ms.Pairwise (fun m m' => m.time < m'.time)) :
    (survivors name key ms).Pairwise (fun v w => w.time < v.time) := by
  induction ms with
  | nil => exact .nil
  | cons m later ih =>
      obtain ⟨hm, hlater⟩ := List.pairwise_cons.mp h
      have htime : ∀ w ∈ (m.write? name key).toList, w.time = m.time := by
        intro w hw
        obtain ⟨v, _, rfl⟩ := Option.map_eq_some_iff.mp (Option.mem_toList.mp hw)
        rfl
      refine List.pairwise_append.mpr ⟨ih hlater, ?_, ?_⟩
      · cases m.write? name key with
        | none => exact .nil
        | some w => exact (List.pairwise_singleton _ w).filter _
      · intro v hv w hw
        obtain ⟨_, m', _, rfl, hv, _⟩ := mem_survivors.mp hv
        obtain ⟨_, _, rfl⟩ := Option.map_eq_some_iff.mp hv
        rw [htime w (List.mem_of_mem_filter hw)]
        exact hm m' (by simp)

theorem versions_survivors_cons (m : Moment) (later : List Moment) :
    (survivors name key (m :: later)).map Write.version = (survivors name key later).map Write.version ++
      (m.written? name key).toList.filter (spared name key later) := by
  rw [survivors, List.map_append, Moment.write?]
  cases m.written? name key with
  | none => rfl
  | some v =>
      rw [Option.map_some, Option.toList_some, Option.toList_some, List.filter_singleton, List.filter_singleton]
      cases spared name key later v <;> rfl

theorem spared_identified (ms : List Moment) (v : Version) :
    spared name key ms v.identified = spared name key ms v := by
  simp only [spared, Moment.ends_identified]

theorem filter_spared (ms : List Moment) (l : List Version) :
    (l.map Version.identified).filter (spared name key ms) =
      (l.filter (spared name key ms)).map Version.identified := by
  rw [List.filter_map]
  congr 1
  exact List.filter_congr (fun v _ => spared_identified ms v)

/-- What a key holds after a run: the writes of the run that survive it, in front of what was there. -/
theorem history_run (he : ReachableUnwrapped e) (hrs : e.Unwrapped rs) (time : Nat) (name key : String) :
    ((e.run rs).2.history name key).map Version.identified =
      (survivors name key (momentsFrom time e rs)).map Write.version ++
        ((e.history name key).filter (spared name key (momentsFrom time e rs))).map Version.identified := by
  induction rs generalizing time e with
  | nil =>
      have hall : (e.history name key).filter (spared name key []) = e.history name key :=
        List.filter_eq_self.mpr (fun _ _ => rfl)
      rw [momentsFrom, hall]
      rfl
  | cons r rs ih =>
      have hlater := ih (.step r he hrs.1) hrs.2 (time + 1)
      have hstep := Moment.history_after (m := ⟨time, e, r⟩) he.sound name key
      rw [momentsFrom, versions_survivors_cons]
      generalize momentsFrom (time + 1) (e.step r).2 rs = later at hlater ⊢
      generalize hm : (⟨time, e, r⟩ : Moment) = m at hstep ⊢
      obtain rfl : m.engine = e := by rw [← hm]
      have hafter : (m.engine.step r).2 = m.after := by rw [← hm]; rfl
      -- what the first request leaves is what it wrote and what it did not end; the rest ends some of both
      rw [← filter_spared, hafter, hstep, List.filter_append, filter_spared, List.filter_filter,
        ← List.append_assoc] at hlater
      rw [show ((m.engine.run (r :: rs)).2 = ((m.engine.step r).2.run rs).2) from rfl, hafter, hlater]
      congr 2
      exact List.filter_congr (fun v _ => Bool.and_comm _ _)

theorem history_fresh_run {settings : Settings} {first : UInt64} (hrs : (fresh settings first).Unwrapped rs)
    (name key : String) :
    (((fresh settings first).run rs).2.history name key).map Version.identified =
      (survivors name key ((fresh settings first).moments rs)).map Write.version := by
  rw [history_run (.fresh settings first) hrs 0, history_of_absent (fresh_empty settings first name),
    List.filter_nil, List.map_nil, List.append_nil]
  rfl

theorem getObject_of_bucket (hb : e.buckets.get? name = some b) (key : String) :
    (e.getObject name key).map Object.identified =
      match ((e.history name key).map Version.identified).head?.bind Version.object? with
      | some o => .ok o
      | none => .error (.noSuchKey name key) := by
  have hnewest : ((e.history name key).map Version.identified).head?.bind Version.object? =
      (b.store.get? key).map Object.identified := by
    rw [ObjectStore.get?_eq_newest, history_of_bucket hb, List.head?_map, Option.bind_map, Option.map_bind]
    exact congrArg _ (funext Version.object?_identified)
  rw [hnewest, getObject, bucket_eq_ok.mpr hb]
  change Except.map _ (match b.store.get? key with
    | some o => Except.ok o
    | none => Except.error (StoreError.noSuchKey name key)) = _
  cases b.store.get? key <;> rfl

/-- What there is to see of a version that a request writes. -/
structure Wrote (name key : String) (m : Moment) (v : Version) : Prop where
  reported : (m.reported? name key).map Version.identified = some v
  newest : (m.after.history name key).head?.map Version.identified = some v
  filed : v.key = key
  content : v.content = m.request.content m.engine
  marker : v.isMarker = true ↔ m.request = .deleteObject name key
  null : v.idOrNull = VersionId.null ↔ m.engine.versioning? name ≠ some .enabled

theorem isSome_written? (m : Moment) (name key : String) : (m.written? name key).isSome = m.writes name key := by
  rcases m.cases_effect with ⟨cause, houtcome, _⟩ | ⟨reply, houtcome, heffect⟩
  · simp [Moment.written?, Moment.writes, Moment.not_succeeds_of_error houtcome]
  · simp [Moment.written?, Moment.writes, Moment.succeeds_of_ok houtcome, heffect.isSome_written?]

theorem wrote_of_written? {m : Moment} {v : Version} (hs : m.engine.Sound) (h : m.written? name key = some v) :
    Wrote name key m v := by
  have hafter := Moment.history_after hs name key
  have hreported := h
  rw [m.written?_eq, Option.map_eq_some_iff] at hreported
  obtain ⟨w, hw, rfl⟩ := hreported
  obtain ⟨reply, houtcome, hreply, heffect⟩ := Moment.reported_eq_some hw
  obtain ⟨hcontent, hkey, status, hstatus, hdraw⟩ := heffect.reported hreply
  have hid : w.id? = (status.draw m.engine.nextVersion).1 := by rw [hdraw]
  have hwritten : m.request.written? name key m.engine = some w.identified := by
    rwa [Moment.written?, if_pos (Moment.succeeds_of_ok houtcome)] at h
  refine ⟨by rw [hw]; rfl, ?_, w.key_identified.trans hkey, w.content_identified.trans hcontent,
    isMarker_of_written? hwritten, ?_⟩
  · rw [← List.head?_map, hafter, h]
    rfl
  · rw [Version.idOrNull_identified, hstatus, Version.idOrNull, hid]
    cases status <;> simp [Versioning.draw, VersionId.ofCounter_ne_null]

/-- A key holds exactly the writes that survive, the last one first, and reading the key reads the last one. A put, a
completion or a delete is a write by the status of its bucket, whatever it answers. -/
theorem history_eq_surviving_writes (settings : Settings) (first : UInt64)
    (hrs : (fresh settings first).Unwrapped rs) (name key : String) :
    (((fresh settings first).run rs).2.history name key).map Version.identified =
      (survivors name key ((fresh settings first).moments rs)).map Write.version ∧
    (survivors name key ((fresh settings first).moments rs)).Pairwise (fun v w => w.time < v.time) ∧
    (∀ m ∈ (fresh settings first).moments rs, (m.written? name key).isSome = m.writes name key ∧
      ∀ v, m.written? name key = some v → Wrote name key m v) ∧
    (((fresh settings first).run rs).2.buckets.contains name = true →
      (((fresh settings first).run rs).2.getObject name key).map Object.identified =
        match (survivors name key ((fresh settings first).moments rs)).head?.bind (·.version.object?) with
        | some o => .ok o
        | none => .error (.noSuchKey name key)) := by
  have hhistory := history_fresh_run hrs name key
  refine ⟨hhistory, survivors_ordered (times_ascending 0 _ rs), ?_, ?_⟩
  · intro m hm
    have hs : m.engine.Sound := (mem_moments_reachable (.fresh settings first) hrs hm).1.sound
    exact ⟨isSome_written? m name key, fun v hv => wrote_of_written? hs hv⟩
  · intro hbucket
    obtain ⟨b, hb⟩ := Option.isSome_iff_exists.mp hbucket
    rw [getObject_of_bucket hb, hhistory, List.head?_map, Option.bind_map]
    rfl

def writesOfEveryStatus : List Request :=
  [.createBucket "b", .putObject "b" "k" [1] {}, .putVersioning "b" "Enabled", .putObject "b" "k" [2] {},
    .deleteObject "b" "k", .putVersioning "b" "Suspended", .putObject "b" "k" [3] {}, .putVersioning "b" "Enabled",
    .deleteObject "b" "k", .deleteVersion "b" "k" "00000000000000000003"]

theorem history_of_every_status :
    (survivors "b" "k" ((fresh {} 1).moments writesOfEveryStatus)).map
        (fun w => (w.time, w.version.idOrNull, w.version.isMarker)) =
      [(6, "null", false), (4, "00000000000000000002", true), (3, "00000000000000000001", false)] ∧
    (((fresh {} 1).run writesOfEveryStatus).2.history "b" "k").map Version.identified =
      (survivors "b" "k" ((fresh {} 1).moments writesOfEveryStatus)).map Write.version ∧
    (((fresh {} 1).run writesOfEveryStatus).2.getObject "b" "k").map (·.body) = .ok [3] := by
  have hrs : (fresh {} 1).Unwrapped writesOfEveryStatus := by decide
  obtain ⟨hhistory, _, _, hget⟩ := history_eq_surviving_writes {} 1 hrs "b" "k"
  refine ⟨by decide, hhistory, ?_⟩
  have hbody : ∀ x : Except StoreError Object, (x.map Object.identified).map (·.body) = x.map (·.body) := by
    intro x
    cases x <;> rfl
  rw [← hbody, hget (by decide)]
  rfl

end Engine

end BucketStore
