import BucketStore.Proofs.Engine.Completion
import BucketStore.Proofs.LastParts

namespace BucketStore

/-- Two completions, of the uploads `id` and `id'`, that are refused for the same cause, or make objects of
the same content. -/
inductive SameOutcome (id id' : String) : Except StoreError Reply → Except StoreError Reply → Prop
  | unlisted (reason : String) :
      SameOutcome id id' (.error (.invalidArgument reason)) (.error (.invalidArgument reason))
  | refused (cause : Upload.ChoiceError) : SameOutcome id id' (.error (cause.refusal id)) (.error (cause.refusal id'))
  | made (o o' : Object) (hbody : o.body = o'.body) (hetag : o.etag = o'.etag) (hsize : o.size = o'.size)
      (hcount : o.partsCount = o'.partsCount) : SameOutcome id id' (.ok (.object o)) (.ok (.object o'))

namespace Engine

variable {e e' : Engine} {name key id name' key' id' : String} {calls calls' : List (UInt32 × List UInt8)}
  {r : Request} {reply : Reply} {u w : Upload}

/-- `calls` are the parts uploaded to a session since it was begun, one after the other, whatever else was
requested in between. -/
inductive Filled (name key id : String) : List (UInt32 × List UInt8) → Engine → Prop
  | begun {e : Engine} {b : Bucket} (metadata : Metadata) (hb : e.buckets.get? name = some b) :
      Filled name key id [] (e.step (.createUpload name key id metadata)).2
  | part {calls : List (UInt32 × List UInt8)} {e : Engine} (number : UInt32) (body : List UInt8)
      (h : Filled name key id calls e) :
      Filled name key id (calls ++ [(number, body)]) (e.step (.uploadPart name key id number body)).2
  | other {calls : List (UInt32 × List UInt8)} {e : Engine} {r : Request} (h : Filled name key id calls e)
      (hother : ∀ number body, r ≠ .uploadPart name key id number body) (hnew : r.begun? ≠ some id)
      (hopen : (e.step r).2.upload? name id ≠ none) : Filled name key id calls (e.step r).2

theorem bucket_of_upload? (h : e.upload? name id = some u) :
    ∃ b, e.buckets.get? name = some b ∧ b.upload? u.key id = some u := by
  obtain ⟨b, hb, hfind⟩ := Option.bind_eq_some_iff.mp h
  exact ⟨b, hb, Bucket.upload?_eq_some_iff.mpr ⟨hfind, rfl⟩⟩

theorem Effect.upload?_cases (h : Effect e r reply e') (hnew : r.begun? ≠ some id) (name : String) :
    e'.upload? name id = none ∨ e'.upload? name id = e.upload? name id ∨ ∃ key number body u,
      r = .uploadPart name key id number body ∧ e.upload? name id = some u ∧ u.key = key := by
  cases h with
  | read | draw => exact .inr (.inl rfl)
  | reset => exact .inl rfl
  | create k absent =>
      rw [upload?_setBucket]
      split
      · exact .inl rfl
      · exact .inr (.inl rfl)
  | delete k =>
      rw [upload?_erase]
      split
      · exact .inl rfl
      · exact .inr (.inl rfl)
  | bucket k b _ _ b' next hb h =>
      change (e.setBucket k b').upload? name id = none ∨ (e.setBucket k b').upload? name id = _ ∨ _
      rw [upload?_setBucket]
      split
      · rename_i hk
        subst hk
        rw [upload?_of_bucket hb, h.find?_eq hnew]
        split
        · exact .inl rfl
        · cases huploaded : r.uploaded? id with
          | none => simp
          | some p =>
              cases h with
              | upload key uploadId u number body hu =>
                  obtain ⟨hfind, hkey⟩ := Bucket.upload?_eq_some_iff.mp hu
                  rw [Request.uploaded?, Option.ite_none_right_eq_some] at huploaded
                  obtain ⟨rfl, _⟩ := huploaded
                  exact .inr (.inr ⟨key, number, body, u, rfl, hfind, hkey⟩)
              | keep | configure | put | complete | mark | forget | drop | start | abort => cases huploaded
      · exact .inr (.inl rfl)

theorem uploadPart_upload? (h : e.upload? name id = some u) (number : UInt32) (body : List UInt8) :
    (e.step (.uploadPart name u.key id number body)).2.upload? name id = some (u.put (Part.ofBody number body)) := by
  obtain ⟨b, hb, hu⟩ := bucket_of_upload? h
  have hid : u.id = id := Sessions.id_of_find? (Bucket.upload?_eq_some_iff.mp hu).1
  have hstep : (e.step (.uploadPart name u.key id number body)).2 =
      e.setBucket name { b with sessions := b.sessions.update (u.put (Part.ofBody number body)) } := by
    simp only [step, answer, uploadPart, session_of_bucket hb, hu, bind, Except.bind, Except.map]
  rw [hstep, upload?_setBucket, if_pos rfl, Sessions.find?_update, (Bucket.upload?_eq_some_iff.mp hu).1]
  exact if_pos hid.symm

theorem Filled.upload?_eq (h : Filled name key id calls e) : ∃ metadata,
    e.upload? name id = some (Upload.receive ⟨⟨id, name, key, metadata⟩, .empty⟩ calls) := by
  induction h with
  | @begun e b metadata hb =>
      refine ⟨metadata, ?_⟩
      rw [step, answer, createUpload, bucket_eq_ok.mpr hb]
      change (e.setBucket name _).upload? name id = _
      rw [upload?_setBucket, if_pos rfl, Sessions.find?_begin]
      exact if_pos rfl
  | part number body _ ih =>
      obtain ⟨metadata, hu⟩ := ih
      have hadded := uploadPart_upload? hu number body
      rw [Upload.receive_key] at hadded
      exact ⟨metadata, by rw [hadded, Upload.receive_concat]⟩
  | @other calls e r _ hother hnew hopen ih =>
      obtain ⟨metadata, hu⟩ := ih
      refine ⟨metadata, ?_⟩
      rcases step_cases e r with ⟨cause, hstep⟩ | ⟨reply, e', hstep, heffect⟩
      · rw [hstep]
        exact hu
      · rw [hstep] at hopen ⊢
        rcases heffect.upload?_cases hnew name with hgone | hsame | ⟨key', number, body, w, hr, hw, hkey⟩
        · exact absurd hgone hopen
        · exact hsame.trans hu
        · obtain rfl := Option.some.inj (hu.symm.trans hw)
          rw [← hkey, Upload.receive_key] at hr
          exact absurd hr (hother number body)

theorem Filled.holdsLast (h : Filled name key id calls e) : ∃ b u, e.buckets.get? name = some b ∧
    b.upload? key id = some u ∧ e.upload? name id = some u ∧ u.HoldsLast calls := by
  obtain ⟨metadata, hu⟩ := h.upload?_eq
  obtain ⟨b, hb, hupload⟩ := bucket_of_upload? hu
  rw [Upload.receive_key] at hupload
  exact ⟨b, _, hb, hupload, hu, Upload.holdsLast_of_part? (Upload.part?_receive rfl calls)⟩

theorem step_listParts {b : Bucket} (hb : e.buckets.get? name = some b) (hu : b.upload? key id = some u)
    (marker : Option UInt32) (cap : Nat) :
    (e.step (.listParts name key id marker (some cap))).1 = .ok (.parts (u.listParts marker cap)) := by
  simp only [step, answer, listParts, session_of_bucket hb, hu, bind, Except.bind, Except.map, Option.getD_some]

theorem completeUpload_same {b b' : Bucket} (hb : e.buckets.get? name = some b) (hu : b.upload? key id = some u)
    (hb' : e'.buckets.get? name' = some b') (hw : b'.upload? key' id' = some w) {choice : List PartChoice}
    (hchoose : u.choose none choice = w.choose none choice) :
    SameOutcome id id' (e.step (.completeUpload name key id choice)).1
      (e'.step (.completeUpload name' key' id' choice)).1 := by
  by_cases hne : choice = []
  · subst hne
    rw [step_of_no_choice hb hu, step_of_no_choice hb' hw]
    exact .unlisted _
  · cases hchosen : u.choose none choice with
    | error cause =>
        rw [step_of_bad_choice hb hu hne hchosen, step_of_bad_choice hb' hw hne (hchoose.symm.trans hchosen)]
        exact .refused _
    | ok parts =>
        rw [step_of_choice hb hu hne hchosen, step_of_choice hb' hw hne (hchoose.symm.trans hchosen)]
        exact .made _ _ rfl rfl rfl rfl

/-- A session holds the last body of each part number and nothing else, and what it is completed to is
told by these alone: it is the same for all sequences of parts that end in the same bodies. -/
theorem Filled.assembly (h : Filled name key id calls e) (h' : Filled name' key' id' calls' e')
    (hlast : ∀ number, lastBody? calls number = lastBody? calls' number) :
    (∃ u, e.upload? name id = some u ∧ u.HoldsLast calls ∧ ∀ cap,
      (e.step (.listParts name key id none (some cap))).1 = .ok (.parts (u.listParts none cap))) ∧
    ∀ choice, SameOutcome id id' (e.step (.completeUpload name key id choice)).1
      (e'.step (.completeUpload name' key' id' choice)).1 := by
  obtain ⟨b, u, hb, hu, hupload, hholds⟩ := h.holdsLast
  obtain ⟨b', w, hb', hw, _, hholds'⟩ := h'.holdsLast
  exact ⟨⟨u, hupload, hholds, step_listParts hb hu none⟩,
    fun choice => completeUpload_same hb hu hb' hw (hholds.choose_eq hholds' hlast none choice)⟩

def filledBackwards : Engine :=
  ((fresh {} 1).run [.createBucket "b", .createUpload "b" "k" "u" {}, .uploadPart "b" "k" "u" 2 [9],
    .putObject "b" "k" [7] {}, .uploadPart "b" "k" "u" 1 [1], .uploadPart "b" "k" "u" 2 [2]]).2

def filledInOrder : Engine :=
  ((fresh {} 1).run [.createBucket "b", .createUpload "b" "k" "w" {}, .uploadPart "b" "k" "w" 1 [1],
    .uploadPart "b" "k" "w" 2 [2]]).2

theorem filled_both_ways :
    Filled "b" "k" "u" [(2, [9]), (1, [1]), (2, [2])] filledBackwards ∧
    Filled "b" "k" "w" [(1, [1]), (2, [2])] filledInOrder ∧
    (∀ number, lastBody? [(2, [9]), (1, [1]), (2, [2])] number = lastBody? [(1, [1]), (2, [2])] number) ∧
    ∀ choice, SameOutcome "u" "w" (filledBackwards.step (.completeUpload "b" "k" "u" choice)).1
      (filledInOrder.step (.completeUpload "b" "k" "w" choice)).1 := by
  have hbucket : ((fresh {} 1).run [.createBucket "b"]).2.buckets.get? "b" = some { name := "b" } := rfl
  have hbegun : ∀ id, Filled "b" "k" id [] (((fresh {} 1).run [.createBucket "b"]).2.step
      (.createUpload "b" "k" id {})).2 := fun _ => .begun {} hbucket
  have hbackwards : Filled "b" "k" "u" [(2, [9]), (1, [1]), (2, [2])] filledBackwards :=
    ((((hbegun "u").part 2 [9]).other (r := .putObject "b" "k" [7] {}) nofun nofun (by decide)).part 1 [1]).part 2 [2]
  have hinOrder : Filled "b" "k" "w" [(1, [1]), (2, [2])] filledInOrder :=
    ((hbegun "w").part 1 [1]).part 2 [2]
  have hlast : ∀ number, lastBody? [(2, [9]), (1, [1]), (2, [2])] number = lastBody? [(1, [1]), (2, [2])] number := by
    intro number
    by_cases h : number = 2
    · subst h
      rfl
    · by_cases h' : number = 1
      · subst h'
        rfl
      · simp [lastBody?, Ne.symm h, Ne.symm h']
  exact ⟨hbackwards, hinOrder, hlast, (hbackwards.assembly hinOrder hlast).2⟩

end Engine

end BucketStore
