import BucketStore.Proofs.Engine.Representation

namespace BucketStore

namespace Request

/-- The ID under which a request that succeeds begins an upload. -/
def begun? : Request → Option String
  | .createUpload _ _ id _ => some id
  | _ => none

/-- The part that a request that succeeds adds to the upload of that ID. -/
def uploaded? (id : String) : Request → Option Part
  | .uploadPart _ _ i number body => if i = id then some (Part.ofBody number body) else none
  | _ => none

/-- Whether a request that succeeds ends the upload of that ID. -/
def concludes (id : String) : Request → Bool
  | .completeUpload _ _ i _ | .abortUpload _ _ i => i = id
  | _ => false

/-- The bucket, key and ID of the upload that a request is about. -/
def session? : Request → Option (String × String × String)
  | .uploadPart name key id _ _ | .completeUpload name key id _ | .abortUpload name key id
  | .listParts name key id _ _ => some (name, key, id)
  | _ => none

end Request

namespace Bucket

variable {name id : String} {n n' : UInt64} {b b' : Bucket} {r : Request} {reply : Reply}

theorem Effect.find?_eq (h : Effect name n b r reply b' n') (hnew : r.begun? ≠ some id) :
    b'.sessions.find? id = if r.concludes id then none else
      (b.sessions.find? id).map (fun u => u.putAll (r.uploaded? id).toList) := by
  cases h with
  | keep | configure | put | mark | forget | drop => simp [Request.concludes, Request.uploaded?]
  | complete key uploadId => simp [Request.concludes, Request.uploaded?, Sessions.find?_erase, eq_comm]
  | abort key uploadId => simp [Request.concludes, Request.uploaded?, Sessions.find?_erase, eq_comm]
  | start key uploadId metadata =>
      have hne : id ≠ uploadId := fun h => hnew (congrArg some h.symm)
      simp [Request.concludes, Request.uploaded?, Sessions.find?_begin, hne]
  | upload key uploadId u number body hu =>
      have hfind := (upload?_eq_some_iff.mp hu).1
      have hid : u.id = uploadId := Sessions.id_of_find? hfind
      rw [Sessions.find?_update]
      by_cases h : id = uploadId
      · subst h
        simp [Request.concludes, Request.uploaded?, Upload.put, hid, hfind]
      · simp [Request.concludes, Request.uploaded?, Upload.put, hid, h, Ne.symm h]

theorem Effect.of_absent (h : Effect name n b r reply b' n') (habsent : b.sessions.find? id = none) :
    r.concludes id = false ∧ r.uploaded? id = none := by
  have hne : ∀ {key uploadId u}, b.upload? key uploadId = some u → uploadId ≠ id := by
    rintro key uploadId u hu rfl
    rw [(upload?_eq_some_iff.mp hu).1] at habsent
    cases habsent
  cases h with
  | keep | configure | put | mark | forget | drop | start => exact ⟨rfl, rfl⟩
  | complete _ _ _ _ _ hu | abort _ _ _ hu => exact ⟨decide_eq_false (hne hu), rfl⟩
  | upload _ _ _ _ _ hu => exact ⟨rfl, if_neg (hne hu)⟩

theorem Effect.not_removes {k : String} (h : Effect k n b r reply b' n') : r.removes name = false := by
  cases h <;> rfl

end Bucket

namespace Engine

variable {e e' : Engine} {name id : String} {r : Request} {reply : Reply} {x : Option Upload}

def upload? (e : Engine) (name id : String) : Option Upload :=
  (e.buckets.get? name).bind (fun b => b.sessions.find? id)

theorem upload?_of_bucket {b : Bucket} (hb : e.buckets.get? name = some b) (id : String) :
    e.upload? name id = b.sessions.find? id := by
  rw [upload?, hb, Option.bind_some]

theorem upload?_of_absent (hb : e.buckets.get? name = none) (id : String) : e.upload? name id = none := by
  rw [upload?, hb, Option.bind_none]

theorem upload?_of_session {key : String} {b : Bucket} {u : Upload} (hs : e.session name key id = .ok (b, u)) :
    e.upload? name id = some u ∧ u.key = key := by
  obtain ⟨hb, hu⟩ := session_eq_ok.mp hs
  rw [upload?_of_bucket hb]
  exact Bucket.upload?_eq_some_iff.mp hu

theorem upload?_setBucket (e : Engine) (k : String) (b : Bucket) (name id : String) :
    (e.setBucket k b).upload? name id = if name = k then b.sessions.find? id else e.upload? name id := by
  by_cases hk : name = k <;> simp [upload?, setBucket, Table.get?_insert, hk]

theorem upload?_erase (e : Engine) (k name id : String) :
    ({ e with buckets := e.buckets.erase k } : Engine).upload? name id =
      if name = k then none else e.upload? name id := by
  by_cases hk : name = k <;> simp [upload?, Table.get?_erase, hk]

/-- The upload of that ID is in this bucket if anywhere. -/
def Holds (e : Engine) (name id : String) (x : Option Upload) : Prop :=
  ∀ name', e.upload? name' id = if name' = name then x else none

theorem untouched_of_reads (h : r.reads = true) :
    r.removes name = false ∧ r.concludes id = false ∧ r.uploaded? id = none := by
  cases r with
  | createBucket | deleteBucket | putVersioning | putObject | deleteObject | deleteVersion | createUpload
  | uploadPart | completeUpload | abortUpload | reset | nextVersionId => cases h
  | _ => exact ⟨rfl, rfl, rfl⟩

theorem Effect.holds (h : Effect e r reply e') (hat : e.Holds name id x) (hnew : r.begun? ≠ some id) :
    e'.Holds name id (if r.removes name || r.concludes id then none else
      x.map (fun u => u.putAll (r.uploaded? id).toList)) := by
  intro name'
  have hhere := hat name'
  cases h with
  | read r reply hr =>
      obtain ⟨hremoves, hconcludes, huploaded⟩ : r.removes name = false ∧ r.concludes id = false ∧
        r.uploaded? id = none := untouched_of_reads hr
      simpa [hremoves, hconcludes, huploaded] using hhere
  | draw =>
      change e.upload? name' id = _
      simpa [Request.removes, Request.concludes, Request.uploaded?] using hhere
  | reset => simp [Request.removes, upload?_of_absent (e := e.reset) rfl]
  | create k habsent =>
      rw [upload?_setBucket]
      split
      · rename_i hk
        rw [hk, upload?_of_absent habsent] at hhere
        change none = _
        simpa [Request.removes, Request.concludes, Request.uploaded?, hk] using hhere
      · simpa [Request.removes, Request.concludes, Request.uploaded?] using hhere
  | delete k =>
      rw [upload?_erase]
      by_cases hname : name' = name
      · subst hname
        by_cases hk : name' = k
        · simp [Request.removes, hk]
        · simpa [Request.removes, Request.concludes, Request.uploaded?, hk, Ne.symm hk] using hhere
      · simpa [hname] using fun _ => hhere
  | bucket k b _ _ b' next hb h =>
      change (e.setBucket k b').upload? name' id = _
      rw [upload?_setBucket, h.not_removes, Bool.false_or]
      by_cases hk : name' = k
      · subst hk
        rw [upload?_of_bucket hb] at hhere
        rw [if_pos rfl, h.find?_eq hnew, hhere]
        split <;> split <;> simp_all
      · rw [if_neg hk, hhere]
        split
        -- a request that concludes or continues the upload finds it, and `k` does not hold it
        · rename_i hname
          have habsent := hat k
          rw [upload?_of_bucket hb, if_neg (fun h => hk (hname.trans h.symm))] at habsent
          obtain ⟨hconcludes, huploaded⟩ := h.of_absent habsent
          simp [hconcludes, huploaded]
        · rfl

end Engine

namespace Moment

def begun? (m : Moment) : Option String := if m.succeeds then m.request.begun? else none

def uploaded? (id : String) (m : Moment) : Option Part := if m.succeeds then m.request.uploaded? id else none

def closes (name id : String) (m : Moment) : Bool := m.removes name || m.succeeds && m.request.concludes id

theorem holds_after {m : Moment} {name id : String} {x : Option Upload} (hat : m.engine.Holds name id x)
    (hnew : m.begun? ≠ some id) : m.after.Holds name id (if m.closes name id then none else
      x.map (fun u => u.putAll (m.uploaded? id).toList)) := by
  rcases m.cases_effect with ⟨cause, houtcome, hafter⟩ | ⟨reply, houtcome, heffect⟩
  · have hsucceeds := not_succeeds_of_error houtcome
    simpa [closes, removes, uploaded?, hsucceeds, hafter] using hat
  · have hsucceeds := succeeds_of_ok houtcome
    rw [begun?, hsucceeds, if_pos rfl] at hnew
    simpa [closes, removes, uploaded?, hsucceeds] using heffect.holds hat hnew

end Moment

namespace Engine

variable {e e' : Engine} {name key id : String} {metadata : Metadata} {time : Nat} {r : Request} {reply : Reply}
  {rs : List Request} {m : Moment} {x : Option Upload} {settings : Settings} {first : UInt64}

/-- Where an upload is after a run that begins none of its ID: what it was, with the parts that the run
added, unless the run closed it. -/
theorem holds_run (hat : e.Holds name id x) (hnew : ∀ m ∈ momentsFrom time e rs, m.begun? ≠ some id) :
    (e.run rs).2.Holds name id (if (momentsFrom time e rs).any (Moment.closes name id) then none else
      x.map (fun u => u.putAll ((momentsFrom time e rs).filterMap (Moment.uploaded? id)))) := by
  induction rs generalizing time e x with
  | nil => simpa [momentsFrom, run] using hat
  | cons r rs ih =>
      obtain ⟨hhere, hnew⟩ := List.forall_mem_cons.mp hnew
      have hstep : (e.step r).2.Holds name id _ := Moment.holds_after (m := ⟨time, e, r⟩) hat hhere
      have hlater := ih hstep hnew
      rw [momentsFrom, List.any_cons, List.filterMap_cons]
      change ((e.step r).2.run rs).2.Holds name id _
      generalize momentsFrom (time + 1) (e.step r).2 rs = later at hlater ⊢
      generalize (⟨time, e, r⟩ : Moment) = m at hlater ⊢
      cases hcloses : m.closes name id with
      | true => simpa [hcloses] using hlater
      | false =>
          cases hpart : m.uploaded? id with
          | none => simpa [hcloses, hpart] using hlater
          | some p => simpa [hcloses, hpart, Function.comp_def] using hlater

theorem createUpload_upload? {u : UploadSummary} (h : e.createUpload name key id metadata = .ok (u, e'))
    (name' : String) : e'.upload? name' id =
      if name' = name then some ⟨⟨id, name, key, metadata⟩, .empty⟩ else e.upload? name' id := by
  obtain ⟨b, hb, h⟩ := bind_eq_ok.mp h
  cases h
  rw [upload?_setBucket, Sessions.find?_begin, if_pos rfl]

theorem session_error {cause : StoreError} (h : e.session name key id = .error cause) :
    cause = .noSuchUpload id := by
  rw [session] at h
  split at h
  · exact (Except.error.inj h).symm
  · split at h
    · exact (Except.error.inj h).symm
    · cases h

theorem step_of_no_session {cause : StoreError} (hr : r.session? = some (name, key, id))
    (hs : e.session name key id = .error cause) : e.step r = (.error (.noSuchUpload id), e) := by
  obtain rfl := session_error hs
  cases r with
  | uploadPart | completeUpload | abortUpload | listParts =>
      cases hr
      simp [step, answer, uploadPart, completeUpload, abortUpload, listParts, hs, bind, Except.bind, Except.map]
  | _ => cases hr

theorem completeUpload_of_session {p : Bucket × Upload} (hs : e.session name key id = .ok p)
    (choice : List PartChoice) : e.completeUpload name key id choice ≠ .error (.noSuchUpload id) := by
  rw [completeUpload, hs]
  simp only [bind, Except.bind]
  split
  · exact nofun
  · split <;> exact nofun

theorem step_of_session {p : Bucket × Upload} (hr : r.session? = some (name, key, id))
    (hs : e.session name key id = .ok p) : (e.step r).1 ≠ .error (.noSuchUpload id) := by
  obtain ⟨b, u⟩ := p
  cases r with
  | uploadPart | abortUpload | listParts =>
      cases hr
      simp [step, answer, uploadPart, abortUpload, listParts, hs, bind, Except.bind, Except.map]
  | completeUpload _ _ _ choice =>
      cases hr
      have hcomplete := completeUpload_of_session hs choice
      cases hc : e.completeUpload name key id choice with
      | ok => simp [step, answer, hc, Except.map]
      | error cause =>
          rw [hc] at hcomplete
          simpa [step, answer, hc, Except.map] using hcomplete
  | _ => cases hr

theorem step_noSuchUpload_iff (hr : r.session? = some (name, key, id)) :
    (e.step r).1 = .error (.noSuchUpload id) ↔ ∀ u, e.upload? name id = some u → u.key ≠ key := by
  cases hs : e.session name key id with
  | error cause =>
      rw [step_of_no_session hr hs]
      refine ⟨fun _ u hu hkey => ?_, fun _ => rfl⟩
      obtain ⟨b, hb, hfind⟩ := Option.bind_eq_some_iff.mp hu
      have hok : e.session name key id = .ok (b, u) :=
        session_eq_ok.mpr ⟨hb, Bucket.upload?_eq_some_iff.mpr ⟨hfind, hkey⟩⟩
      rw [hok] at hs
      cases hs
  | ok p =>
      refine ⟨fun h => absurd h (step_of_session hr hs), fun h => ?_⟩
      obtain ⟨hu, hkey⟩ := upload?_of_session hs
      exact absurd hkey (h p.2 hu)

theorem upload?_of_not_begun (hnew : id ∉ ((fresh settings first).moments rs).filterMap Moment.begun?)
    (name : String) : ((fresh settings first).run rs).2.upload? name id = none := by
  have hstart : (fresh settings first).Holds name id none := by
    intro name'
    rw [upload?_of_absent (fresh_empty settings first name'), ite_self]
  have hend := holds_run hstart (fun m hm hid => hnew (List.mem_filterMap.mpr ⟨m, hm, hid⟩)) name
  simpa using hend

theorem holds_of_begun (hrequest : m.request = .createUpload name key id metadata) (hs : m.succeeds = true)
    (hfree : ∀ name', m.engine.upload? name' id = none) :
    m.after.Holds name id (some ⟨⟨id, name, key, metadata⟩, .empty⟩) := by
  obtain ⟨time, e, r⟩ := m
  obtain rfl : r = .createUpload name key id metadata := hrequest
  intro name'
  rw [Moment.after, step, answer]
  rw [Moment.succeeds, Moment.outcome, step, answer] at hs
  cases hc : e.createUpload name key id metadata with
  | error cause =>
      rw [hc] at hs
      cases hs
  | ok p =>
      have hupload := createUpload_upload? hc name'
      rw [hfree name'] at hupload
      exact hupload

theorem holds_of_split {before after : List Moment}
    (hids : (((fresh settings first).moments rs).filterMap Moment.begun?).Nodup)
    (hsplit : (fresh settings first).moments rs = before ++ m :: after)
    (hrequest : m.request = .createUpload name key id metadata) (hs : m.succeeds = true) :
    ((fresh settings first).run rs).2.Holds name id (if after.any (Moment.closes name id) then none else
      some (Upload.putAll ⟨⟨id, name, key, metadata⟩, .empty⟩ (after.filterMap (Moment.uploaded? id)))) := by
  have hbegun : m.begun? = some id := by rw [Moment.begun?, hs, if_pos rfl, hrequest, Request.begun?]
  rw [hsplit, List.filterMap_append, List.filterMap_cons, hbegun] at hids
  -- nobody else begins the ID: before `m` no bucket holds it, and after `m` it is not begun anew
  have hnew := (List.nodup_cons.mp (List.nodup_middle.mp hids)).1
  rw [List.mem_append, not_or] at hnew
  obtain ⟨earlier, later, rfl, hengine, rfl, rfl⟩ := momentsFrom_split hsplit
  have hfree : ∀ name', m.engine.upload? name' id = none := by
    rw [hengine]
    exact upload?_of_not_begun hnew.1
  have hend := holds_run (holds_of_begun hrequest hs hfree)
    (fun m' hm' hid => hnew.2 (List.mem_filterMap.mpr ⟨m', hm', hid⟩))
  rw [run_append]
  rw [← hengine]
  exact hend

end Engine

/-- Whether a moment is about that upload, and does not conclude it. -/
def Moment.works (name key id : String) (m : Moment) : Bool :=
  m.request.session? = some (name, key, id) && !(m.succeeds && m.request.concludes id)

namespace Engine

variable {e e' : Engine} {name key id : String} {metadata : Metadata} {time : Nat} {r : Request} {reply : Reply}
  {rs : List Request} {m : Moment}

/-- What is made of `e` by an upload under way: one more session in its bucket, and nothing else. -/
inductive Begun (e : Engine) (name key id : String) : Engine → Prop
  | absent (habsent : e.buckets.get? name = none) : Begun e name key id e
  | present (b u) (hb : e.buckets.get? name = some b) (hid : u.id = id) (hkey : u.key = key) :
      Begun e name key id (e.setBucket name { b with sessions := b.sessions.begin u })

theorem begun_createUpload (e : Engine) (name key id : String) (metadata : Metadata) :
    Begun e name key id (e.step (.createUpload name key id metadata)).2 := by
  cases hb : e.buckets.get? name with
  | none =>
      rw [step, answer, createUpload, bucket, hb]
      exact .absent hb
  | some b =>
      rw [step, answer, createUpload, bucket_eq_ok.mpr hb]
      exact .present b ⟨⟨id, name, key, metadata⟩, .empty⟩ hb rfl rfl

theorem Effect.works (h : Effect e r reply e') (hr : r.session? = some (name, key, id))
    (hopen : r.concludes id = false) : e' = e ∨ ∃ b u number body, e.buckets.get? name = some b ∧
      b.upload? key id = some u ∧
      e' = e.setBucket name { b with sessions := b.sessions.update (u.put (Part.ofBody number body)) } := by
  cases h with
  | read => exact .inl rfl
  | create | delete | draw | reset => cases hr
  | bucket k b _ _ b' next hb h =>
      cases h with
      | keep | configure | put | mark | forget | drop | start => cases hr
      | complete | abort =>
          cases hr
          exact absurd rfl (of_decide_eq_false hopen)
      | upload key uploadId u number body hu =>
          cases hr
          exact .inr ⟨b, u, number, body, hb, hu, rfl⟩

theorem Begun.work (h : Begun e name key id m.engine) (hworks : m.works name key id = true) :
    Begun e name key id m.after := by
  rw [Moment.works, Bool.and_eq_true, decide_eq_true_eq] at hworks
  obtain ⟨hr, hopen⟩ := hworks
  rcases m.cases_effect with ⟨_, _, hsame⟩ | ⟨reply, houtcome, heffect⟩
  · rwa [hsame]
  · rw [Moment.succeeds_of_ok houtcome, Bool.true_and, Bool.not_eq_true'] at hopen
    rcases heffect.works hr hopen with hsame | ⟨c, w, number, body, hc, hw, hafter⟩
    · rwa [hsame]
    · generalize m.engine = e' at h hc hafter
      cases h with
      | absent habsent =>
          rw [habsent] at hc
          cases hc
      | present b u hb hid hkey =>
          rw [setBucket, Table.get?_insert, if_pos rfl] at hc
          obtain rfl := Option.some.inj hc
          have hfind := (Bucket.upload?_eq_some_iff.mp hw).1
          rw [Sessions.find?_begin, if_pos hid.symm] at hfind
          obtain rfl := Option.some.inj hfind
          rw [hafter, setBucket_setBucket, Sessions.update_begin _ (by rfl)]
          exact .present b (u.put (Part.ofBody number body)) hb hid hkey

theorem Begun.run (h : Begun e name key id e') (hworks : ∀ m ∈ momentsFrom time e' rs, m.works name key id = true) :
    Begun e name key id (e'.run rs).2 := by
  induction rs generalizing time e' with
  | nil => exact h
  | cons r rs ih =>
      obtain ⟨hhere, hworks⟩ := List.forall_mem_cons.mp hworks
      exact ih (Begun.work (m := ⟨time, e', r⟩) h hhere) hworks

theorem Begun.abort (h : Begun e name key id e') (hfree : e.upload? name id = none) :
    (e'.step (.abortUpload name key id)).2 = e := by
  cases h with
  | absent habsent =>
      rw [step, answer, abortUpload, session, habsent]
      rfl
  | present b u hb hid hkey =>
      subst hid
      rw [upload?_of_bucket hb] at hfree
      have hs : (e.setBucket name { b with sessions := b.sessions.begin u }).session name key u.id =
          .ok ({ b with sessions := b.sessions.begin u }, u) := by
        refine session_eq_ok.mpr ⟨by rw [setBucket, Table.get?_insert, if_pos rfl], ?_⟩
        exact Bucket.upload?_eq_some_iff.mpr ⟨by rw [Sessions.find?_begin, if_pos rfl], hkey⟩
      rw [step, answer, abortUpload, hs]
      change (e.setBucket name _).setBucket name { b with sessions := (b.sessions.begin u).erase u.id } = e
      rw [setBucket_setBucket, Sessions.erase_begin hfree, setBucket_self hb]

theorem outcome_createUpload (hrequest : m.request = .createUpload name key id metadata) (hs : m.succeeds = true) :
    m.outcome = .ok (.upload ⟨id, name, key, metadata⟩) := by
  rcases m.cases_effect with ⟨cause, houtcome, _⟩ | ⟨reply, houtcome, heffect⟩
  · rw [Moment.not_succeeds_of_error houtcome] at hs
    cases hs
  · rw [hrequest] at heffect
    generalize m.after = e' at heffect
    cases heffect with
    | read _ _ hr => cases hr
    | bucket _ _ _ _ _ _ _ h =>
        cases h with
        | start => exact houtcome

theorem completeUpload_body {choice : List PartChoice} {o : Object}
    (h : (e.step (.completeUpload name key id choice)).1 = .ok (.object o)) :
    ∃ u, e.upload? name id = some u ∧ o.body = (choice.filterMap (fun c => u.part? c.number)).flatMap (·.body) := by
  rcases step_cases e (.completeUpload name key id choice) with ⟨cause, hstep⟩ | ⟨reply, e', hstep, heffect⟩
  · rw [hstep] at h
    cases h
  · obtain rfl : reply = .object o := Except.ok.inj ((congrArg Prod.fst hstep).symm.trans h)
    have hreported : (Request.completeUpload name key id choice).reported? name key (.object o) =
        some (.object o) := by simp [Request.reported?]
    have hcontent := (heffect.reported hreported).1
    rw [Request.content] at hcontent
    cases hs : e.session name key id with
    | error cause =>
        rw [hs] at hcontent
        cases hcontent
    | ok p =>
        rw [hs] at hcontent
        exact ⟨p.2, (upload?_of_session hs).1, (Prod.mk.inj (Option.some.inj hcontent)).1⟩

/-- An upload is found in its bucket under its key until it is closed, and never again. All that it holds
are the parts that were uploaded under its ID, and an abort leaves nothing behind. -/
theorem upload_lifecycle (settings : Settings) (first : UInt64) (rs : List Request) :
    ((((fresh settings first).moments rs).filterMap Moment.begun?).Nodup →
      ∀ before m after name key id metadata, (fresh settings first).moments rs = before ++ m :: after →
      m.request = .createUpload name key id metadata → m.succeeds = true →
      m.outcome = .ok (.upload ⟨id, name, key, metadata⟩) ∧
      (∀ r name' key', r.session? = some (name', key', id) →
        ((((fresh settings first).run rs).2.step r).1 = .error (.noSuchUpload id) ↔
          ¬(name' = name ∧ key' = key ∧ ∀ m' ∈ after, m'.closes name id = false))) ∧
      ((∀ m' ∈ after, m'.closes name id = false) →
        ((fresh settings first).run rs).2.upload? name id =
          some (Upload.putAll ⟨⟨id, name, key, metadata⟩, .empty⟩ (after.filterMap (Moment.uploaded? id)))) ∧
      ∀ name' key' choice o,
        (((fresh settings first).run rs).2.step (.completeUpload name' key' id choice)).1 = .ok (.object o) →
          ∃ parts : List Part, (∀ p ∈ parts, p ∈ after.filterMap (Moment.uploaded? id)) ∧
            o.body = parts.flatMap (·.body)) ∧
    ∀ name key id metadata more, id ∉ ((fresh settings first).moments rs).filterMap Moment.begun? →
      (∀ m ∈ (((fresh settings first).run rs).2.step (.createUpload name key id metadata)).2.moments more,
        m.works name key id = true) →
      (((fresh settings first).run rs).2.run
        (.createUpload name key id metadata :: more ++ [.abortUpload name key id])).2 =
        ((fresh settings first).run rs).2 := by
  refine ⟨fun hids before m after name key id metadata hsplit hrequest hs => ?_,
    fun name key id metadata more hnew hworks => ?_⟩
  · have hholds := holds_of_split hids hsplit hrequest hs
    generalize ((fresh settings first).run rs).2 = e at hholds ⊢
    have hopen : after.any (Moment.closes name id) = false ↔ ∀ m' ∈ after, m'.closes name id = false := by
      simp
    refine ⟨outcome_createUpload hrequest hs, fun r name' key' hr => ?_, fun hkept => ?_,
      fun name' key' choice o hcomplete => ?_⟩
    · rw [step_noSuchUpload_iff hr, hholds name', ← hopen]
      by_cases hname : name' = name
      · cases hclosed : after.any (Moment.closes name id) with
        | true => simp [hname]
        | false => simp [hname, Upload.putAll_summary, eq_comm]
      · simp [hname]
    · rw [hholds name, if_pos rfl, hopen.mpr hkept]
      rfl
    · obtain ⟨u, hu, hbody⟩ := completeUpload_body hcomplete
      refine ⟨_, fun p hp => ?_, hbody⟩
      obtain ⟨c, _, hpart⟩ := List.mem_filterMap.mp hp
      rw [hholds name'] at hu
      simp only [Option.ite_none_right_eq_some, Option.ite_none_left_eq_some, Option.some_inj] at hu
      obtain ⟨_, _, rfl⟩ := hu
      exact (Upload.mem_of_putAll hpart).resolve_right nofun
  · have hfree := upload?_of_not_begun hnew name
    generalize ((fresh settings first).run rs).2 = e at hfree hworks ⊢
    have hbegun := (begun_createUpload e name key id metadata).run hworks
    have hlast := hbegun.abort hfree
    rw [List.cons_append, run]
    exact (run_append _ more _).trans hlast

def twoUploads : List Request :=
  [.createBucket "b", .createUpload "b" "k" "u" {}, .createUpload "b" "k" "w" {}, .uploadPart "b" "k" "u" 1 [1],
    .uploadPart "b" "k" "w" 1 [2], .putObject "b" "k" [3] {}, .abortUpload "b" "k" "w", .deleteBucket "b"]

theorem first_of_twoUploads :
    (((fresh {} 1).run twoUploads).2.upload? "b" "u").map (fun u => u.parts.values.map (·.body)) = some [[1]] ∧
    (((fresh {} 1).run twoUploads).2.step (.listParts "b" "l" "u" none none)).1 = .error (.noSuchUpload "u") ∧
    (((fresh {} 1).run twoUploads).2.run [.createUpload "b" "k" "x" {}, .uploadPart "b" "k" "x" 1 [4],
      .completeUpload "b" "k" "x" [], .abortUpload "b" "k" "x"]).2 = ((fresh {} 1).run twoUploads).2 := by
  have hids : (((fresh {} 1).moments twoUploads).filterMap Moment.begun?).Nodup := by decide
  let m : Moment := ⟨1, ((fresh {} 1).run (twoUploads.take 1)).2, .createUpload "b" "k" "u" {}⟩
  have hsplit : (fresh {} 1).moments twoUploads = (fresh {} 1).moments (twoUploads.take 1) ++
    m :: momentsFrom 2 m.after (twoUploads.drop 2) := rfl
  obtain ⟨hlife, haborted⟩ := upload_lifecycle {} 1 twoUploads
  obtain ⟨_, hfound, hparts, _⟩ := hlife hids _ m _ "b" "k" "u" {} hsplit rfl (by decide)
  refine ⟨?_, (hfound _ "b" "l" rfl).mpr (by decide), haborted "b" "k" "x" {}
    [.uploadPart "b" "k" "x" 1 [4], .completeUpload "b" "k" "x" []] (by decide) (by decide)⟩
  rw [hparts (by decide)]
  decide

end Engine

end BucketStore
