import BucketStore.Proofs.Engine.Isolation
import BucketStore.Proofs.Engine.UploadLife
import BucketStore.Proofs.PartChoice

namespace BucketStore

def Object.composed (tags : List String) (o : Object) : Object :=
  { o with etag := EntityTag.composite tags, partsCount := some (min tags.length (2 ^ 32 - 1)) }

theorem Upload.assemble_eq_composed (u : Upload) (parts : List Part) (versionId : Option String) :
    u.assemble parts versionId =
      (Object.ofBody u.key versionId (parts.flatMap (·.body)) u.metadata).composed (parts.map (·.etag)) := by
  rw [assemble, Object.composed, List.length_map]
  rfl

def KeyEdit.amend (f : Object → Object) : KeyEdit where
  plain := Option.map f
  versioned := Option.map (fun
    | .object o :: older => .object (f o) :: older
    | h => h)

theorem ObjectStore.edit_amend_add (tags : List String) (s : ObjectStore) (o : Object) :
    (s.add (.object o)).edit o.key (.amend (Object.composed tags)) = s.add (.object (o.composed tags)) := by
  rw [add_eq_edit, add_eq_edit]
  change (s.edit o.key (.add (.object o))).edit o.key (.amend (Object.composed tags)) =
    s.edit o.key (.add (.object (o.composed tags)))
  cases s with
  | plain s => exact congrArg plain (Table.modify_modify s o.key _ _)
  | versioned s =>
      refine congrArg versioned ((Table.modify_modify s o.key _ _).trans (congrArg _ (funext fun h => ?_)))
      have hnull : History.isNull (.object (o.composed tags)) = History.isNull (.object o) := rfl
      simp only [Function.comp_apply, KeyEdit.amend, KeyEdit.add, Option.map_some, History.add, hnull]
      cases History.isNull (.object o) <;> rfl

/-- What is left to do for an upload once the bodies of the chosen parts were put in one piece. -/
def Bucket.conclude (key uploadId : String) (tags : List String) (b : Bucket) : Bucket :=
  { b with
    store := b.store.edit key (.amend (Object.composed tags))
    sessions := b.sessions.erase uploadId }

namespace Engine

variable {e : Engine} {name key uploadId : String} {choice : List PartChoice} {b : Bucket} {u w : Upload}
  {cause : Upload.ChoiceError} {parts : List Part}

theorem step_of_no_choice (hb : e.buckets.get? name = some b) (hu : b.upload? key uploadId = some u) :
    e.step (.completeUpload name key uploadId []) =
      (.error (.invalidArgument "You must specify at least one part"), e) := by
  simp only [step, answer, completeUpload, session_of_bucket hb, hu, bind, Except.bind, if_pos, Except.map]

theorem step_of_bad_choice (hb : e.buckets.get? name = some b) (hu : b.upload? key uploadId = some u)
    (hne : choice ≠ []) (h : u.choose none choice = .error cause) :
    e.step (.completeUpload name key uploadId choice) = (.error (cause.refusal uploadId), e) := by
  simp only [step, answer, completeUpload, session_of_bucket hb, hu, bind, Except.bind, if_neg hne, h]
  cases cause <;> rfl

theorem step_of_choice (hb : e.buckets.get? name = some b) (hu : b.upload? key uploadId = some u)
    (hne : choice ≠ []) (h : u.choose none choice = .ok parts) :
    e.step (.completeUpload name key uploadId choice) =
      (.ok (.object (u.assemble parts (b.versioning.draw e.nextVersion).1)),
        (e.write name { b with sessions := b.sessions.erase uploadId } (u.assemble parts)).2) := by
  simp only [step, answer, completeUpload, session_of_bucket hb, hu, bind, Except.bind, if_neg hne, h, Except.map,
    write]

theorem step_putObject (hb : e.buckets.get? name = some b) (key : String) (body : List UInt8) (metadata : Metadata) :
    e.step (.putObject name key body metadata) =
      (.ok (.object (Object.ofBody key (b.versioning.draw e.nextVersion).1 body metadata)),
        (e.write name b (fun id => Object.ofBody key id body metadata)).2) := by
  simp only [step, answer, putObject, bucket_eq_ok.mpr hb, bind, Except.bind, Except.map, write]

theorem write_assemble (e : Engine) (name : String) (b : Bucket) (u : Upload) (parts : List Part) (uploadId : String) :
    (e.write name { b with sessions := b.sessions.erase uploadId } (u.assemble parts)).2 =
      (e.write name b (fun id => Object.ofBody u.key id (parts.flatMap (·.body)) u.metadata)).2.update name
        (.conclude u.key uploadId (parts.map (·.etag))) := by
  have hamend := ObjectStore.edit_amend_add (parts.map (·.etag)) b.store
    (Object.ofBody u.key (b.versioning.draw e.nextVersion).1 (parts.flatMap (·.body)) u.metadata)
  rw [← Upload.assemble_eq_composed] at hamend
  rw [write, write]
  refine Eq.trans ?_ (update_setBucket { e with nextVersion := (b.versioning.draw e.nextVersion).2 } name _ _).symm
  rw [Bucket.conclude]
  dsimp only
  rw [← hamend]
  rfl

theorem step_completeUpload_eq (hb : e.buckets.get? name = some b) (hu : b.upload? key uploadId = some u)
    (hne : choice ≠ []) (h : u.choose none choice = .ok parts) : ∃ o put,
    e.step (.putObject name key (parts.flatMap (·.body)) u.metadata) = (.ok (.object o), put) ∧
      e.step (.completeUpload name key uploadId choice) = (.ok (.object (o.composed (parts.map (·.etag)))),
        put.update name (.conclude key uploadId (parts.map (·.etag)))) := by
  obtain rfl : u.key = key := (Bucket.upload?_eq_some_iff.mp hu).2
  refine ⟨_, _, step_putObject hb u.key _ _, ?_⟩
  rw [step_of_choice hb hu hne h, Upload.assemble_eq_composed, write_assemble]

theorem step_of_unlisted {e' after : Engine} {reply : Except StoreError Reply}
    (hb : e.buckets.get? name = some b) (hu : b.upload? key uploadId = some u)
    (hstep : e.step (.completeUpload name key uploadId choice) = (reply, after))
    (he' : e' = e.setBucket name { b with sessions := b.sessions.update w })
    (hw : w.toUploadSummary = u.toUploadSummary) (hparts : ∀ c ∈ choice, w.part? c.number = u.part? c.number) :
    (e'.step (.completeUpload name key uploadId choice)).1 = reply ∧
      (reply.isOk → (e'.step (.completeUpload name key uploadId choice)).2 = after) := by
  obtain ⟨hfind, hkey⟩ := Bucket.upload?_eq_some_iff.mp hu
  have hid : w.id = uploadId := (congrArg UploadSummary.id hw).trans (Sessions.id_of_find? hfind)
  have hb' : e'.buckets.get? name = some { b with sessions := b.sessions.update w } := by
    rw [he', get?_setBucket_self]
  have hu' : ({ b with sessions := b.sessions.update w } : Bucket).upload? key uploadId = some w := by
    have hkey' : w.key = key := (congrArg UploadSummary.key hw).trans hkey
    rw [Bucket.upload?, Sessions.find?_update, if_pos hid.symm, hfind, Option.map_some, Option.filter_some,
      if_pos (decide_eq_true hkey')]
  have hchoose := Upload.choose_congr hparts none
  by_cases hne : choice = []
  · subst hne
    rw [step_of_no_choice hb hu] at hstep
    cases hstep
    rw [step_of_no_choice hb' hu']
    refine ⟨rfl, fun hok => ?_⟩
    cases hok
  · cases h : u.choose none choice with
    | error cause =>
        rw [step_of_bad_choice hb hu hne h] at hstep
        cases hstep
        rw [step_of_bad_choice hb' hu' hne (hchoose.trans h)]
        refine ⟨rfl, fun hok => ?_⟩
        cases hok
    | ok parts =>
        have hassemble : w.assemble parts = u.assemble parts := by
          funext versionId
          rw [Upload.assemble, Upload.assemble, hw]
        have herase : (b.sessions.update w).erase uploadId = b.sessions.erase uploadId :=
          hid ▸ Sessions.erase_update b.sessions w
        rw [step_of_choice hb hu hne h] at hstep
        cases hstep
        rw [step_of_choice hb' hu' hne (hchoose.trans h), hassemble, herase, he']
        refine ⟨rfl, fun _ => ?_⟩
        rw [write, write]
        dsimp only
        rw [setBucket_setBucket]
        rfl

/-- What a completion that finds the upload `u` in the bucket `b` answers, and the engine after it. -/
structure Completion (e : Engine) (name key uploadId : String) (choice : List PartChoice) (b : Bucket) (u : Upload)
    (reply : Except StoreError Reply) (after : Engine) : Prop where
  empty : (∃ message, reply = .error (.invalidArgument message)) ↔ choice = []
  message : choice = [] → reply = .error (.invalidArgument "You must specify at least one part")
  faulty : choice ≠ [] → ((∃ cause, reply = .error cause) ↔ ∃ i, u.Faulty choice i)
  order : ∀ i, u.FirstFault choice i → Upload.OutOfOrder choice i → reply = .error (.invalidPartOrder uploadId)
  part : ∀ i c, u.FirstFault choice i → ¬ Upload.OutOfOrder choice i → choice[i]? = some c →
    reply = .error (.invalidPart uploadId c.number)
  refused : ∀ cause, reply = .error cause → after = e
  done : choice ≠ [] → (∀ i, ¬ u.Faulty choice i) → ∃ parts o put, u.Listed choice parts ∧
    e.step (.putObject name key (parts.flatMap (·.body)) u.metadata) = (.ok (.object o), put) ∧
    reply = .ok (.object (o.composed (parts.map (·.etag)))) ∧
    after = put.update name (.conclude key uploadId (parts.map (·.etag)))
  unlisted : ∀ w e', w.toUploadSummary = u.toUploadSummary → (∀ c ∈ choice, w.part? c.number = u.part? c.number) →
    e' = e.setBucket name { b with sessions := b.sessions.update w } →
    (e'.step (.completeUpload name key uploadId choice)).1 = reply ∧
      (reply.isOk → (e'.step (.completeUpload name key uploadId choice)).2 = after)

theorem completion_of_no_choice (hb : e.buckets.get? name = some b) (hu : b.upload? key uploadId = some u) :
    e.Completion name key uploadId [] b u (.error (.invalidArgument "You must specify at least one part")) e := by
  have hfine : ∀ i, ¬ u.Faulty [] i := fun i h => absurd h.lt_length (Nat.not_lt_zero i)
  constructor
  case empty => exact ⟨fun _ => rfl, fun _ => ⟨_, rfl⟩⟩
  case message => exact fun _ => rfl
  case faulty | done => exact fun h => absurd rfl h
  case order => exact fun i h => absurd h.1 (hfine i)
  case part => exact fun i _ h => absurd h.1 (hfine i)
  case refused => exact fun _ _ => rfl
  case unlisted => exact fun w e' hw hparts he' => step_of_unlisted hb hu (step_of_no_choice hb hu) he' hw hparts

theorem completion_of_bad_choice (hb : e.buckets.get? name = some b) (hu : b.upload? key uploadId = some u)
    (hne : choice ≠ []) (h : u.choose none choice = .error cause) :
    e.Completion name key uploadId choice b u (.error (cause.refusal uploadId)) e := by
  obtain ⟨i, c, hfirst, hc, hcause⟩ := Upload.choose_error h
  constructor
  case empty =>
    refine ⟨fun ⟨_, heq⟩ => ?_, fun hnil => absurd hnil hne⟩
    cases cause <;> cases heq
  case message => exact fun hnil => absurd hnil hne
  case faulty => exact fun _ => ⟨fun _ => ⟨i, hfirst.1⟩, fun _ => ⟨_, rfl⟩⟩
  case order =>
    intro j hj horder
    obtain rfl := hj.unique hfirst
    rcases hcause with ⟨_, rfl⟩ | ⟨hordered, _⟩
    · rfl
    · exact absurd horder hordered
  case part =>
    intro j d hj hordered hd
    obtain rfl := hj.unique hfirst
    cases hc.symm.trans hd
    rcases hcause with ⟨horder, _⟩ | ⟨_, rfl⟩
    · exact absurd horder hordered
    · rfl
  case refused => exact fun _ _ => rfl
  case done => exact fun _ hfine => absurd hfirst.1 (hfine i)
  case unlisted =>
    exact fun w e' hw hparts he' => step_of_unlisted hb hu (step_of_bad_choice hb hu hne h) he' hw hparts

theorem completion_of_choice (hb : e.buckets.get? name = some b) (hu : b.upload? key uploadId = some u)
    (hne : choice ≠ []) (h : u.choose none choice = .ok parts) :
    e.Completion name key uploadId choice b u (e.step (.completeUpload name key uploadId choice)).1
      (e.step (.completeUpload name key uploadId choice)).2 := by
  obtain ⟨hlisted, hfine⟩ := Upload.choose_ok h
  obtain ⟨o, put, hput, hstep⟩ := step_completeUpload_eq hb hu hne h
  rw [hstep]
  constructor
  case empty => exact ⟨nofun, fun hnil => absurd hnil hne⟩
  case message => exact fun hnil => absurd hnil hne
  case faulty => exact fun _ => ⟨nofun, fun ⟨i, hi⟩ => absurd hi (hfine i)⟩
  case order => exact fun i hi => absurd hi.1 (hfine i)
  case part => exact fun i _ hi => absurd hi.1 (hfine i)
  case refused => exact nofun
  case done => exact fun _ _ => ⟨parts, o, put, hlisted, hput, rfl, rfl⟩
  case unlisted => exact fun w e' hw hparts he' => step_of_unlisted hb hu hstep he' hw hparts

theorem completion_of_upload (hb : e.buckets.get? name = some b) (hu : b.upload? key uploadId = some u) :
    e.Completion name key uploadId choice b u (e.step (.completeUpload name key uploadId choice)).1
      (e.step (.completeUpload name key uploadId choice)).2 := by
  by_cases hne : choice = []
  · subst hne
    rw [step_of_no_choice hb hu]
    exact completion_of_no_choice hb hu
  · cases h : u.choose none choice with
    | error cause =>
        rw [step_of_bad_choice hb hu hne h]
        exact completion_of_bad_choice hb hu hne h
    | ok parts => exact completion_of_choice hb hu hne h

/-- An upload that is found is completed like a put of the chosen parts in one piece, unless a part is at fault,
and then the first that is gives the error. -/
theorem upload_completion (e : Engine) (name key uploadId : String) (choice : List PartChoice) :
    ((e.step (.completeUpload name key uploadId choice)).1 = .error (.noSuchUpload uploadId) ↔
      ¬ ∃ b u, e.buckets.get? name = some b ∧ b.sessions.find? uploadId = some u ∧ u.key = key) ∧
    ∀ b u, e.buckets.get? name = some b → b.sessions.find? uploadId = some u → u.key = key →
      e.Completion name key uploadId choice b u (e.step (.completeUpload name key uploadId choice)).1
        (e.step (.completeUpload name key uploadId choice)).2 := by
  constructor
  · rw [step_noSuchUpload_iff rfl]
    constructor
    · rintro h ⟨b, u, hb, hfind, hkey⟩
      exact h u (by rw [upload?_of_bucket hb, hfind]) hkey
    · intro h u hu hkey
      obtain ⟨b, hb, hfind⟩ := Option.bind_eq_some_iff.mp hu
      exact h ⟨b, u, hb, hfind, hkey⟩
  · intro b u hb hfind hkey
    exact completion_of_upload hb (Bucket.upload?_eq_some_iff.mpr ⟨hfind, hkey⟩)

def twoParts : Engine :=
  ((fresh {} 1).run [.createBucket "b", .putVersioning "b" "Suspended", .createUpload "b" "k" "u" {},
    .uploadPart "b" "k" "u" 1 [3], .uploadPart "b" "k" "u" 2 [5]]).2

def secondPart : List PartChoice := [⟨2, EntityTag.hexDigest [5]⟩]

theorem twoParts_second_completed : ∃ o put,
    twoParts.step (.putObject "b" "k" [5] {}) = (.ok (.object o), put) ∧
    twoParts.step (.completeUpload "b" "k" "u" secondPart) = (.ok (.object (o.composed [EntityTag.ofBody [5]])),
      put.update "b" (.conclude "k" "u" [EntityTag.ofBody [5]])) := by
  obtain ⟨b, u, hb, hfind, hkey, hpart, hmetadata⟩ : ∃ b u, twoParts.buckets.get? "b" = some b ∧
      b.sessions.find? "u" = some u ∧ u.key = "k" ∧ u.part? 2 = some (.ofBody 2 [5]) ∧ u.metadata = {} :=
    ⟨_, _, rfl, rfl, rfl, rfl, rfl⟩
  have hcompletion := (upload_completion twoParts "b" "k" "u" secondPart).2 b u hb hfind hkey
  have hok : (twoParts.step (.completeUpload "b" "k" "u" secondPart)).1.isOk = true := by decide +kernel
  have hfine : ∀ i, ¬ u.Faulty secondPart i := by
    intro i hi
    obtain ⟨cause, hcause⟩ := (hcompletion.faulty nofun).mpr ⟨i, hi⟩
    rw [hcause] at hok
    cases hok
  obtain ⟨parts, o, put, hlisted, hput, hreply, hafter⟩ := hcompletion.done nofun hfine
  obtain rfl : parts = [.ofBody 2 [5]] := by
    cases hlisted with
    | cons hp hrest =>
        cases hrest
        rw [Option.some.inj (hp.symm.trans hpart)]
  rw [hmetadata] at hput
  exact ⟨o, put, hput, Prod.ext hreply hafter⟩

end Engine

end BucketStore
