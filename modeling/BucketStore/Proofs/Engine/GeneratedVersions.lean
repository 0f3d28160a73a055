import BucketStore.Proofs.Engine.SurvivingWrites

namespace BucketStore

/-- The version ID that a request spends, as its answer tells it. -/
def Request.issued? : Request → Reply → Option String
  | .putObject .., .object o | .completeUpload .., .object o => o.versionId.filter (· ≠ VersionId.null)
  | .deleteObject .., .deletion d => d.versionId.filter (· ≠ VersionId.null)
  | .nextVersionId, .versionId id => some id
  | _, _ => none

def Version.answer (key id : String) : Version → Except StoreError Object
  | object o => .ok o
  | marker _ => .error (.methodNotAllowed key id)

namespace Request

variable {r : Request} {reply : Reply} {name key id : String} {v : Version}

theorem cases_reported (h : r.reported? name key reply = some v) :
    (∃ body metadata o, r = .putObject name key body metadata ∧ reply = .object o ∧ v = .object o) ∨
      (∃ uploadId choice o, r = .completeUpload name key uploadId choice ∧ reply = .object o ∧ v = .object o) ∨
      ∃ d id, r = .deleteObject name key ∧ reply = .deletion d ∧ d.versionId = some id ∧ v = .marker ⟨key, id⟩ := by
  unfold reported? at h
  split at h
  · rename_i body metadata o
    simp only [Option.ite_none_right_eq_some, Option.some_inj] at h
    obtain ⟨⟨rfl, rfl⟩, rfl⟩ := h
    exact .inl ⟨body, metadata, o, rfl, rfl, rfl⟩
  · rename_i uploadId choice o
    simp only [Option.ite_none_right_eq_some, Option.some_inj] at h
    obtain ⟨⟨rfl, rfl⟩, rfl⟩ := h
    exact .inr (.inl ⟨uploadId, choice, o, rfl, rfl, rfl⟩)
  · rename_i d
    simp only [Option.ite_none_right_eq_some, Option.map_eq_some_iff] at h
    obtain ⟨⟨rfl, rfl⟩, id, hid, rfl⟩ := h
    exact .inr (.inr ⟨d, id, rfl, rfl, hid, rfl⟩)
  · cases h

theorem issued?_of_reported (h : r.reported? name key reply = some v) (hid : v.id? = some id)
    (hne : id ≠ VersionId.null) : r.issued? reply = some id := by
  rcases cases_reported h with ⟨_, _, o, rfl, rfl, rfl⟩ | ⟨_, _, o, rfl, rfl, rfl⟩ | ⟨d, _, rfl, rfl, hd, rfl⟩
  · exact Option.filter_eq_some_iff.mpr ⟨hid, decide_eq_true hne⟩
  · exact Option.filter_eq_some_iff.mpr ⟨hid, decide_eq_true hne⟩
  · exact Option.filter_eq_some_iff.mpr ⟨hd.trans hid, decide_eq_true hne⟩

theorem reported_of_issued? (h : r.issued? reply = some id) :
    (r = .nextVersionId ∧ reply = .versionId id) ∨
      ∃ name key v, r.reported? name key reply = some v ∧ v.id? = some id ∧ id ≠ VersionId.null := by
  unfold issued? at h
  split at h
  · rename_i b k _ _ o
    obtain ⟨hid, hne⟩ := Option.filter_eq_some_iff.mp h
    exact .inr ⟨b, k, .object o, by simp [reported?], hid, by simpa using hne⟩
  · rename_i b k _ _ o
    obtain ⟨hid, hne⟩ := Option.filter_eq_some_iff.mp h
    exact .inr ⟨b, k, .object o, by simp [reported?], hid, by simpa using hne⟩
  · rename_i b k d
    obtain ⟨hid, hne⟩ := Option.filter_eq_some_iff.mp h
    exact .inr ⟨b, k, .marker ⟨k, id⟩, by simp [reported?, hid], rfl, by simpa using hne⟩
  · exact .inl ⟨rfl, by rw [Option.some.inj h]⟩
  · cases h

end Request

theorem Bucket.Effect.ne_nextVersionId {name : String} {n n' : UInt64} {b b' : Bucket} {r : Request}
    {reply : Reply} (h : Bucket.Effect name n b r reply b' n') : r ≠ .nextVersionId := by
  cases h <;> exact nofun

namespace Engine

variable {e e' : Engine} {id : String} {r : Request} {reply : Reply}

theorem Effect.drawn (h : Effect e .nextVersionId reply e') :
    reply = .versionId (VersionId.ofCounter e.nextVersion) ∧ e'.nextVersion = e.nextVersion + 1 := by
  cases h with
  | read _ _ hr => cases hr
  | draw => exact ⟨rfl, rfl⟩
  | bucket _ _ _ _ _ _ _ h => exact absurd rfl h.ne_nextVersionId

theorem Effect.issued (h : Effect e r reply e') (hid : r.issued? reply = some id) :
    id = VersionId.ofCounter e.nextVersion ∧ e'.nextVersion = e.nextVersion + 1 := by
  rcases Request.reported_of_issued? hid with ⟨rfl, rfl⟩ | ⟨name, key, v, hv, hvid, hne⟩
  · obtain ⟨hreply, hnext⟩ := h.drawn
    exact ⟨Reply.versionId.inj hreply, hnext⟩
  · obtain ⟨_, _, status, _, hdraw⟩ := h.reported hv
    rw [hvid] at hdraw
    cases status with
    | unset => cases hdraw
    | suspended => exact absurd (Option.some.inj (Prod.mk.inj hdraw).1).symm hne
    | enabled =>
        obtain ⟨hid, hnext⟩ := Prod.mk.inj hdraw
        exact ⟨(Option.some.inj hid).symm, hnext.symm⟩

end Engine

def Moment.issued? (m : Moment) : Option String := m.outcome.toOption.bind m.request.issued?

namespace Engine

variable {e : Engine} {name key id : String} {time : Nat} {rs : List Request} {m m' : Moment} {v : Version}

theorem issued?_eq_some (h : m.issued? = some id) :
    id = VersionId.ofCounter m.engine.nextVersion ∧ m.after.nextVersion = m.engine.nextVersion + 1 := by
  rcases m.cases_effect with ⟨cause, houtcome, _⟩ | ⟨reply, houtcome, heffect⟩
  · rw [Moment.issued?, houtcome] at h
    cases h
  · rw [Moment.issued?, houtcome] at h
    exact heffect.issued h

theorem issued_from (hrs : e.Unwrapped rs) (hm : m ∈ momentsFrom time e rs) :
    e.nextVersion ≤ m.engine.nextVersion := by
  induction rs generalizing time e with
  | nil => cases hm
  | cons r rs ih =>
      rcases List.mem_cons.mp hm with rfl | hm
      · exact UInt64.le_refl _
      · exact UInt64.le_trans hrs.1 (ih hrs.2 hm)

theorem issued_ascending (hrs : e.Unwrapped rs) :
    ((momentsFrom time e rs).filterMap Moment.issued?).Pairwise (· < ·) := by
  induction rs generalizing time e with
  | nil => exact .nil
  | cons r rs ih =>
      rw [momentsFrom, List.filterMap_cons]
      cases hid : (⟨time, e, r⟩ : Moment).issued? with
      | none => exact ih hrs.2
      | some id =>
          refine List.pairwise_cons.mpr ⟨fun id' hid' => ?_, ih hrs.2⟩
          obtain ⟨m, hm, hid'⟩ := List.mem_filterMap.mp hid'
          obtain ⟨rfl, hnext⟩ := issued?_eq_some hid
          obtain ⟨rfl, _⟩ := issued?_eq_some hid'
          refine VersionId.ofCounter_lt ?_
          have hle : (e.step r).2.nextVersion ≤ m.engine.nextVersion := issued_from hrs.2 hm
          have hlt : e.nextVersion < (e.step r).2.nextVersion :=
            Std.lt_of_le_of_ne hrs.1 (by rw [show (e.step r).2.nextVersion = _ from hnext]; simp)
          exact Std.lt_of_lt_of_le hlt hle

theorem eq_of_issued (hrs : e.Unwrapped rs) (hm : m ∈ momentsFrom time e rs) (hm' : m' ∈ momentsFrom time e rs)
    (hid : m.issued? = some id) (hid' : m'.issued? = some id) : m = m' := by
  by_contra hne
  have hsymm : Std.Symm (fun m m' : Moment => ∀ id ∈ m.issued?, ∀ id' ∈ m'.issued?, id ≠ id') :=
    ⟨fun _ _ h id hid id' hid' => (h id' hid' id hid).symm⟩
  have hascending : ((momentsFrom time e rs).filterMap Moment.issued?).Pairwise (· < ·) := issued_ascending hrs
  have hdistinct := (List.pairwise_filterMap.mp hascending).imp
    (S := fun m m' : Moment => ∀ id ∈ m.issued?, ∀ id' ∈ m'.issued?, id ≠ id')
    (fun h id hid id' hid' => (h id hid id' hid').ne)
  exact hdistinct.forall hm hm' hne id hid id hid' rfl

variable {settings : Settings} {first : UInt64}

theorem Sound.getVersion_of_mem (hs : e.Sound) (hv : v ∈ e.history name key) (hid : v.id? = some id) :
    e.getVersion name key id = v.answer key id := by
  cases hb : e.buckets.get? name with
  | none =>
      rw [history_of_absent hb] at hv
      cases hv
  | some b =>
      rw [history_of_bucket hb] at hv
      rw [getVersion, bucket_eq_ok.mpr hb]
      have hstore := (hs name b hb).store
      cases hst : b.store with
      | plain s =>
          rw [hst] at hv hstore
          obtain ⟨o, ho, rfl⟩ := Option.map_eq_some_iff.mp (Option.mem_toList.mp hv)
          exact absurd ((hstore key o ho).symm.trans hid) nofun
      | versioned s =>
          rw [hst] at hv hstore
          have hfind := VersionedStore.find?_of_mem hstore hv hid
          cases v <;>
            simp [bind, Except.bind, ObjectStore.getVersion?, ObjectStore.isMarker, hst, hfind, Version.object?,
              Version.isMarker, Version.marker?, Version.answer]

theorem getVersion_of_not_mem (hv : ∀ v ∈ e.history name key, v.id? ≠ some id) (hne : id ≠ VersionId.null) :
    e.getVersion name key id = .error (.noSuchVersion key id) ∨
      e.getVersion name key id = .error (.noSuchBucket name) := by
  cases hb : e.buckets.get? name with
  | none =>
      refine .inr ?_
      rw [getVersion, bucket, hb]
      rfl
  | some b =>
      refine .inl ?_
      rw [history_of_bucket hb] at hv
      rw [getVersion, bucket_eq_ok.mpr hb]
      cases hst : b.store with
      | plain s => simp [bind, Except.bind, ObjectStore.getVersion?, ObjectStore.isMarker, hst, hne]
      | versioned s =>
          rw [hst] at hv
          have hfind : s.find? key id = none := List.find?_eq_none.mpr (fun v hmem => by simpa using hv v hmem)
          simp [bind, Except.bind, ObjectStore.getVersion?, ObjectStore.isMarker, hst, hfind]

theorem exists_reported (hrs : (fresh settings first).Unwrapped rs)
    (hv : v ∈ ((fresh settings first).run rs).2.history name key) (hid : v.id? = some id)
    (hne : id ≠ VersionId.null) : ∃ m ∈ (fresh settings first).moments rs, m.reported? name key = some v := by
  have hmem := List.mem_map_of_mem (f := Version.identified) hv
  rw [history_fresh_run hrs, Version.identified_of_id hid] at hmem
  obtain ⟨w, hw, rfl⟩ := List.mem_map.mp hmem
  obtain ⟨before, m, after, hsplit, hw, _⟩ := mem_survivors.mp hw
  obtain ⟨v, hwritten, rfl⟩ := Option.map_eq_some_iff.mp hw
  rw [m.written?_eq] at hwritten
  obtain ⟨u, hu, hidentified⟩ := Option.map_eq_some_iff.mp hwritten
  obtain rfl := Version.eq_of_identified hidentified hid hne
  exact ⟨m, by rw [hsplit]; simp, hu⟩

theorem issued?_of_reported (h : m.reported? name key = some v) (hid : v.id? = some id)
    (hne : id ≠ VersionId.null) : m.issued? = some id := by
  obtain ⟨reply, houtcome, hv, _⟩ := Moment.reported_eq_some h
  rw [Moment.issued?, houtcome]
  exact Request.issued?_of_reported hv hid hne

end Engine

/-- Whether the versions of that ID under the key go at this moment. -/
def Moment.drops (name key id : String) (m : Moment) : Bool :=
  m.removes name || m.succeeds && m.request = .deleteVersion name key id

namespace Request

variable {r : Request} {reply : Reply} {name name' key key' : String} {v w : Version}

theorem eq_of_reported (h : r.reported? name key reply = some v) (h' : r.reported? name' key' reply = some w) :
    name' = name ∧ key' = key ∧ w = v := by
  rcases cases_reported h with ⟨_, _, _, rfl, rfl, rfl⟩ | ⟨_, _, _, rfl, rfl, rfl⟩ | ⟨_, _, rfl, rfl, hd, rfl⟩
  · simp only [reported?, Option.ite_none_right_eq_some, Option.some_inj] at h'
    exact ⟨h'.1.1.symm, h'.1.2.symm, h'.2.symm⟩
  · simp only [reported?, Option.ite_none_right_eq_some, Option.some_inj] at h'
    exact ⟨h'.1.1.symm, h'.1.2.symm, h'.2.symm⟩
  · simp only [reported?, hd, Option.ite_none_right_eq_some, Option.map_some, Option.some_inj] at h'
    obtain ⟨⟨rfl, rfl⟩, rfl⟩ := h'
    exact ⟨rfl, rfl, rfl⟩

theorem not_removes_of_reported (h : r.reported? name key reply = some v) : r.removes name' = false := by
  rcases cases_reported h with ⟨_, _, _, rfl, _⟩ | ⟨_, _, _, rfl, _⟩ | ⟨_, _, rfl, _⟩ <;> rfl

end Request

namespace Engine

variable {e : Engine} {name name' key key' id : String} {time : Nat} {rs : List Request}
  {m : Moment} {v w : Version}

theorem eq_of_reported (h : m.reported? name key = some v) (h' : m.reported? name' key' = some w) :
    name' = name ∧ key' = key ∧ w = v := by
  obtain ⟨reply, houtcome, hv, _⟩ := Moment.reported_eq_some h
  obtain ⟨reply', houtcome', hw, _⟩ := Moment.reported_eq_some h'
  obtain rfl : reply = reply' := Except.ok.inj (houtcome.symm.trans houtcome')
  exact Request.eq_of_reported hv hw

theorem spared_of_not_dropped (hconf : e.Configured name) (hid : v.id? = some id) (hne : id ≠ VersionId.null)
    (hkept : ∀ m ∈ momentsFrom time e rs, m.drops name key id = false) :
    spared name key (momentsFrom time e rs) v = true := by
  have hremoves : ∀ m ∈ momentsFrom time e rs, m.removes name = false := by
    intro m hm
    have h := hkept m hm
    rw [Moment.drops, Bool.or_eq_false_iff] at h
    exact h.1
  have hidv : v.idOrNull = id := by rw [Version.idOrNull, hid, Option.getD_some]
  refine List.all_eq_true.mpr (fun m hm => ?_)
  -- the bucket is still configured at `m`, so a write there replaces null versions at most
  obtain ⟨b, hb, hset⟩ := (configured_of_mem hconf hremoves).2 m hm
  have hdrops := hkept m hm
  rw [Moment.drops, Moment.removes] at hdrops
  rw [Moment.ends, versioning?_of_bucket hb, Option.any_some, Bool.not_eq_true']
  cases hs : m.succeeds with
  | false => rfl
  | true =>
      simp only [hs, Bool.true_and, Bool.or_eq_false_iff, decide_eq_false_iff_not] at hdrops ⊢
      have hreplaces : b.versioning.replaces v = false := by
        cases hv : b.versioning with
        | unset => exact absurd hv hset
        | enabled => rfl
        | suspended => simp [Versioning.replaces, hidv, hne]
      cases hr : m.request <;> simp_all [Request.ends, Request.removes]

/-- A generated version reads the same under its key for as long as it is not dropped, and there is
nothing else that its ID ever reads. IDs ascend as they are issued. -/
theorem generated_versions_durable (settings : Settings) (first : UInt64)
    (hrs : (fresh settings first).Unwrapped rs) :
    (((fresh settings first).moments rs).filterMap Moment.issued?).Pairwise (· < ·) ∧
    ∀ before m after, (fresh settings first).moments rs = before ++ m :: after →
      ∀ name key v, m.engine.versioning? name = some .enabled → m.reported? name key = some v →
        ∃ id, m.issued? = some id ∧ v.id? = some id ∧ v.content = m.request.content m.engine ∧
          (∀ name' key',
            (name' = name ∧ key' = key ∧
              ((fresh settings first).run rs).2.getVersion name' key' id = v.answer key id) ∨
            ((fresh settings first).run rs).2.getVersion name' key' id = .error (.noSuchVersion key' id) ∨
            ((fresh settings first).run rs).2.getVersion name' key' id = .error (.noSuchBucket name')) ∧
          ((∀ m' ∈ after, m'.drops name key id = false) →
            ((fresh settings first).run rs).2.getVersion name key id = v.answer key id) := by
  refine ⟨issued_ascending hrs, fun before m after hsplit name key v hstatus hv => ?_⟩
  have hm : m ∈ (fresh settings first).moments rs := by rw [hsplit]; simp
  obtain ⟨reply, houtcome, hreported, heffect⟩ := Moment.reported_eq_some hv
  obtain ⟨hcontent, _, status, hdrawn, hdraw⟩ := heffect.reported hreported
  obtain rfl : .enabled = status := Option.some.inj (hstatus.symm.trans hdrawn)
  have hid : v.id? = some (VersionId.ofCounter m.engine.nextVersion) := (Prod.mk.inj hdraw).1.symm
  have hne := VersionId.ofCounter_ne_null m.engine.nextVersion
  generalize VersionId.ofCounter m.engine.nextVersion = id at hid hne
  have hissued := issued?_of_reported hv hid hne
  have hsound := (ReachableUnwrapped.run (.fresh settings first) hrs).sound
  refine ⟨id, hissued, hid, hcontent, fun name' key' => ?_, fun hkept => ?_⟩
  · by_cases hmem : ∀ w ∈ ((fresh settings first).run rs).2.history name' key', w.id? ≠ some id
    · exact .inr (getVersion_of_not_mem hmem hne)
    · push Not at hmem
      obtain ⟨w, hw, hidw⟩ := hmem
      obtain ⟨m', hm', hreported'⟩ := exists_reported hrs hw hidw hne
      obtain rfl := eq_of_issued hrs hm hm' hissued (issued?_of_reported hreported' hidw hne)
      obtain ⟨rfl, rfl, rfl⟩ := eq_of_reported hv hreported'
      exact .inl ⟨rfl, rfl, hsound.getVersion_of_mem hw hid⟩
  · obtain ⟨later, hafter, hlater, hrun, rfl⟩ := (ReachableUnwrapped.fresh settings first).split hrs hsplit
    have hstart : v ∈ m.after.history name key := by
      have hsoundm := (mem_moments_reachable (.fresh settings first) hrs hm).1.sound
      have hwritten : m.written? name key = some v := by
        rw [m.written?_eq, hv, Option.map_some, Version.identified_of_id hid]
      refine Version.mem_of_identified ?_ hid hne
      rw [Moment.history_after hsoundm, hwritten]
      exact List.mem_cons_self
    have hconf : m.after.Configured name := by
      obtain ⟨b, hb, hb'⟩ := Option.map_eq_some_iff.mp hstatus
      exact heffect.configured ⟨b, hb, by rw [hb']; exact nofun⟩ (Request.not_removes_of_reported hreported)
    have hspared := spared_of_not_dropped hconf hid hne hkept
    have hend : v ∈ (m.after.run later).2.history name key := by
      refine Version.mem_of_identified ?_ hid hne
      rw [history_run hafter hlater (m.time + 1)]
      exact List.mem_append_right _ (List.mem_map.mpr
        ⟨v, List.mem_filter.mpr ⟨hstart, hspared⟩, Version.identified_of_id hid⟩)
    rw [hrun] at hsound ⊢
    exact hsound.getVersion_of_mem hend hid

def writesOverGenerated : List Request :=
  [.createBucket "b", .putVersioning "b" "Enabled", .putObject "b" "k" [1] {}, .putVersioning "b" "Suspended",
    .putObject "b" "k" [2] {}, .deleteObject "b" "k", .deleteVersion "b" "k" "null"]

theorem generated_version_under_null_versions :
    ((fresh {} 7).run writesOverGenerated).2.getVersion "b" "k" (VersionId.ofCounter 7) =
      .ok (Object.ofBody "k" (some (VersionId.ofCounter 7)) [1] {}) := by
  have hrs : (fresh {} 7).Unwrapped writesOverGenerated := by decide
  let m : Moment := ⟨2, ((fresh {} 7).run (writesOverGenerated.take 2)).2, .putObject "b" "k" [1] {}⟩
  have hsplit : (fresh {} 7).moments writesOverGenerated = (fresh {} 7).moments (writesOverGenerated.take 2) ++
    m :: momentsFrom 3 m.after (writesOverGenerated.drop 3) := rfl
  obtain ⟨id, hissued, _, _, _, hkept⟩ := (generated_versions_durable {} 7 hrs).2 _ _ _ hsplit "b" "k"
    (.object (Object.ofBody "k" (some (VersionId.ofCounter 7)) [1] {})) (by decide) rfl
  obtain rfl : VersionId.ofCounter 7 = id := Option.some.inj (Eq.trans (by decide) hissued)
  exact hkept (by decide)

end Engine

end BucketStore
