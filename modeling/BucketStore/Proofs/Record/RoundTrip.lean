import BucketStore.Proofs.Record.Fields
import Mathlib.Tactic.IntervalCases

namespace BucketStore.Record

/-- What the fields of a record hold: its dates, and its whole numbers, each with the number that its type stops short
of. Those that may be absent go by their names. The entries of a map are written in any order, so that a record may have
more than one form. -/
class Contents (α : Type) [Record α] where
  dates : α → List Instant := fun _ => []
  numbers : α → List (Nat × Nat) := fun _ => []
  optionals : List String := []
  Form : α → Json → Prop := fun a j => j = toJson a

section

variable {α : Type} [Record α] [Contents α]

def Dated (a : α) : Prop := ∀ i ∈ Contents.dates a, 0 ≤ i.date.year ∧ i.date.year ≤ 9999

def Bounded (a : α) : Prop := ∀ n ∈ Contents.numbers a, n.1 < n.2

instance (a : α) : Decidable (Dated a) := inferInstanceAs (Decidable (∀ i ∈ Contents.dates a, _))

instance (a : α) : Decidable (Bounded a) := inferInstanceAs (Decidable (∀ n ∈ Contents.numbers a, _))

end

/-- A record and its JSON forms as they are given field by field. -/
class Lawful (α : Type) [Record α] [Contents α] : Prop where
  form_toJson : ∀ a : α, Contents.Form a (toJson a)
  ofJson?_form : ∀ (a : α) (j : Json), Contents.Form a j → Dated a → Bounded a → ofJson? j = some a
  bounded : ∀ (j : Json) (a : α), ofJson? j = some a → Bounded a
  ofJson?_null : ∀ name ∈ Contents.optionals α, ∀ front back : List (Option String × Json),
    (∀ m ∈ front ++ back, m.1 ≠ some name) →
    (ofJson? (.object (front ++ (some name, .null) :: back)) : Option α) = ofJson? (.object (front ++ back))

/-- A record is read back from each of its texts. All forms in which an accepted text is written again are accepted and
come to the same, and an absent field may as well be a null. -/
structure RoundTrips (α : Type) [Record α] [Contents α] : Prop where
  form_toJson : ∀ a : α, Contents.Form a (toJson a)
  read_write : ∀ (a : α) (j : Json), Contents.Form a j → Dated a → Bounded a → read? α j.write = some a
  rewritten : ∀ (text : String) (a : α), read? α text = some a → Dated a →
    canonical? α text = some (write a) ∧ ∀ j, Contents.Form a j → canonical? α j.write = some (write a)
  null_absent : ∀ name ∈ Contents.optionals α, ∀ (front back : List (Option String × Json)) (text text' : String),
    (∀ m ∈ front ++ back, m.1 ≠ some name) → Json.read? text = some (.object (front ++ (some name, .null) :: back)) →
    Json.read? text' = some (.object (front ++ back)) → read? α text = read? α text'

theorem roundTrips (α : Type) [Record α] [Contents α] [Lawful α] : RoundTrips α := by
  have hread : ∀ (a : α) (j : Json), Contents.Form a j → Dated a → Bounded a → read? α j.write = some a := by
    intro a j hform hdates hnumbers
    rw [read?, Json.read?_write]
    exact Lawful.ofJson?_form a j hform hdates hnumbers
  refine ⟨Lawful.form_toJson, hread, fun text a h hdates => ⟨?_, fun j hform => ?_⟩,
    fun name hname front back text text' hother h h' => ?_⟩
  · rw [canonical?, h, Option.map_some]
  · obtain ⟨_, _, hj⟩ := Option.bind_eq_some_iff.mp h
    rw [canonical?, hread a j hform hdates (Lawful.bounded _ a hj), Option.map_some]
  · rw [read?, read?, h, h']
    exact Lawful.ofJson?_null name hname front back hother

def metadataForm (m : Metadata) (entries : List (String × String)) : Json :=
  .object (present (["contentType", "contentEncoding", "contentDisposition", "contentLanguage", "cacheControl",
    "userMetadata"].zip [m.contentType.map string, m.contentEncoding.map string, m.contentDisposition.map string,
    m.contentLanguage.map string, m.cacheControl.map string,
    some (.object (entries.map (fun e => (some e.1, string e.2))))]))

theorem metadata_toJson (m : Metadata) : toJson m = metadataForm m m.user.entries := by
  simp [toJson, metadataForm, present, optional]

theorem metadata?_form {m : Metadata} {entries : List (String × String)} (h : entries.Perm m.user.entries) :
    metadata? (some (metadataForm m entries)) = some m := by
  refine Option.bind_eq_some_iff.mpr ⟨_, fields?_present (by decide) rfl 1, ?_⟩
  refine Option.bind_eq_some_iff.mpr ⟨_, optional?_string _, ?_⟩
  refine Option.bind_eq_some_iff.mpr ⟨_, optional?_string _, ?_⟩
  refine Option.bind_eq_some_iff.mpr ⟨_, optional?_string _, ?_⟩
  refine Option.bind_eq_some_iff.mpr ⟨_, optional?_string _, ?_⟩
  refine Option.bind_eq_some_iff.mpr ⟨_, optional?_string _, ?_⟩
  exact Option.bind_eq_some_iff.mpr ⟨_, stringMap?_perm h, rfl⟩

instance : Contents Metadata where
  optionals := ["contentType", "contentEncoding", "contentDisposition", "contentLanguage", "cacheControl"]
  Form m j := ∃ entries, entries.Perm m.user.entries ∧ j = metadataForm m entries

instance : Lawful Metadata where
  form_toJson m := ⟨_, .refl _, metadata_toJson m⟩
  ofJson?_form := by
    rintro m _ ⟨entries, hentries, rfl⟩ _ _
    exact metadata?_form hentries
  bounded _ _ _ := fun _ hn => absurd hn List.not_mem_nil
  ofJson?_null name hname front back h := by
    have hplace : ∀ name ∈ Contents.optionals Metadata, ∃ k < 5, ["contentType", "contentEncoding",
      "contentDisposition", "contentLanguage", "cacheControl", "userMetadata"][k]? = some name := by decide
    obtain ⟨k, hk, hname⟩ := hplace name hname
    refine fields?_null (by decide) hname (fun values => ?_) 1 h
    rcases values with _ | ⟨_, _ | ⟨_, _ | ⟨_, _ | ⟨_, _ | ⟨_, _ | ⟨_, _ | _⟩⟩⟩⟩⟩⟩ <;> interval_cases k <;> rfl

def headForm (h : HeadRecord) (metadata : Json) : Json :=
  .object (present (["key", "versionId", "etag", "size", "lastModified", "metadata", "partsCount"].zip
    [some (string h.key), h.versionId.map string, some (string h.etag), some (.natural h.size),
      some (instant h.lastModified), some metadata, h.partsCount.map .natural]))

instance : Contents HeadRecord where
  dates h := [h.lastModified]
  numbers h := (h.size, UInt64.size) :: h.partsCount.toList.map (fun n => (n, UInt32.size))
  optionals := ["versionId", "partsCount"]
  Form h j := ∃ metadata, Contents.Form h.metadata metadata ∧ j = headForm h metadata

instance : Lawful HeadRecord where
  form_toJson h := ⟨_, Lawful.form_toJson h.metadata, by simp [toJson, headForm, present, optional]⟩
  ofJson?_form := by
    rintro h _ ⟨_, ⟨entries, hentries, rfl⟩, rfl⟩ hdates hnumbers
    have hsize : h.size < UInt64.size := hnumbers _ List.mem_cons_self
    have hparts : optional? (naturalBelow? UInt32.size) (h.partsCount.map Json.natural) = some h.partsCount :=
      optional?_map (fun n hn => ⟨naturalBelow?_natural (hnumbers (n, UInt32.size)
        (List.mem_cons_of_mem _ (List.mem_map_of_mem (Option.mem_toList.mpr hn)))), fun hc => nomatch hc⟩)
    refine Option.bind_eq_some_iff.mpr ⟨_, fields?_present (by decide) rfl 0, ?_⟩
    refine Option.bind_eq_some_iff.mpr ⟨_, rfl, ?_⟩
    refine Option.bind_eq_some_iff.mpr ⟨_, optional?_string _, ?_⟩
    refine Option.bind_eq_some_iff.mpr ⟨_, rfl, ?_⟩
    refine Option.bind_eq_some_iff.mpr ⟨_, naturalBelow?_natural hsize, ?_⟩
    refine Option.bind_eq_some_iff.mpr ⟨_, metadata?_form hentries, ?_⟩
    refine Option.bind_eq_some_iff.mpr ⟨_, hparts, ?_⟩
    exact Option.bind_eq_some_iff.mpr ⟨_, instant?_instant (hdates _ List.mem_cons_self), rfl⟩
  bounded j h hread := by
    obtain ⟨values, _, hread⟩ := Option.bind_eq_some_iff.mp hread
    split at hread
    · simp only [Option.bind_eq_bind, Option.bind_eq_some_iff] at hread
      obtain ⟨_, _, _, _, _, _, size, hsize, _, _, parts, hparts, _, _, heq⟩ := hread
      obtain rfl := Option.some.inj heq
      intro n hn
      rcases List.mem_cons.mp hn with rfl | hn
      · exact naturalBelow?_lt hsize
      · obtain ⟨count, hcount, rfl⟩ := List.mem_map.mp hn
        exact naturalBelow?_lt (optional?_eq_some hparts count (Option.mem_toList.mp hcount))
    · cases hread
  ofJson?_null name hname front back h := by
    have hplace : ∀ name ∈ Contents.optionals HeadRecord, ∃ k, (k = 1 ∨ k = 6) ∧ ["key", "versionId", "etag", "size",
      "lastModified", "metadata", "partsCount"][k]? = some name := by
      simp [Contents.optionals]
    obtain ⟨k, hk, hname⟩ := hplace name hname
    refine fields?_null (by decide) hname (fun values => ?_) 0 h
    rcases hk with rfl | rfl <;>
      rcases values with _ | ⟨_, _ | ⟨_, _ | ⟨_, _ | ⟨_, _ | ⟨_, _ | ⟨_, _ | ⟨_, _ | _⟩⟩⟩⟩⟩⟩⟩ <;> rfl

instance : Contents MarkerRecord where
  dates m := [m.lastModified]

instance : Lawful MarkerRecord where
  form_toJson _ := rfl
  ofJson?_form := by
    rintro m _ rfl hdates _
    have hmembers : toJson m = .object (present (["key", "versionId", "lastModified"].zip
        [some (string m.key), some (string m.versionId), some (instant m.lastModified)])) := by
      simp [toJson, present, optional]
    rw [hmembers]
    refine Option.bind_eq_some_iff.mpr ⟨_, fields?_present (by decide) rfl 0, ?_⟩
    refine Option.bind_eq_some_iff.mpr ⟨_, rfl, ?_⟩
    refine Option.bind_eq_some_iff.mpr ⟨_, rfl, ?_⟩
    exact Option.bind_eq_some_iff.mpr ⟨_, instant?_instant (hdates _ List.mem_cons_self), rfl⟩
  bounded _ _ _ := fun _ hn => absurd hn List.not_mem_nil
  ofJson?_null _ hname := absurd hname List.not_mem_nil

instance : Contents Deletion where
  optionals := ["versionId"]

instance : Lawful Deletion where
  form_toJson _ := rfl
  ofJson?_form := by
    rintro d _ rfl _ _
    have hmembers : toJson d = .object (present (["key", "versionId", "deleteMarker"].zip
        [some (string d.key), d.versionId.map string, some (.bool d.deleteMarker)])) := by
      simp [toJson, present, optional]
    rw [hmembers]
    refine Option.bind_eq_some_iff.mpr ⟨_, fields?_present (by decide) rfl 0, ?_⟩
    refine Option.bind_eq_some_iff.mpr ⟨_, rfl, ?_⟩
    refine Option.bind_eq_some_iff.mpr ⟨_, optional?_string _, ?_⟩
    exact Option.bind_eq_some_iff.mpr ⟨_, rfl, rfl⟩
  bounded _ _ _ := fun _ hn => absurd hn List.not_mem_nil
  ofJson?_null name hname front back h := by
    obtain rfl := List.mem_singleton.mp hname
    refine fields?_null (k := 1) (by decide) rfl (fun values => ?_) 0 h
    rcases values with _ | ⟨_, _ | ⟨_, _ | ⟨_, _ | _⟩⟩⟩ <;> rfl

def uploadForm (u : UploadRecord) (metadata : Json) : Json :=
  .object (present (["uploadId", "bucket", "key", "initiated", "metadata"].zip [some (string u.id),
    some (string u.bucket), some (string u.key), some (instant u.initiated), some metadata]))

instance : Contents UploadRecord where
  dates u := [u.initiated]
  Form u j := ∃ metadata, Contents.Form u.metadata metadata ∧ j = uploadForm u metadata

instance : Lawful UploadRecord where
  form_toJson u := ⟨_, Lawful.form_toJson u.metadata, by simp [toJson, uploadForm, present, optional]⟩
  ofJson?_form := by
    rintro u _ ⟨_, ⟨entries, hentries, rfl⟩, rfl⟩ hdates _
    refine Option.bind_eq_some_iff.mpr ⟨_, fields?_present (by decide) rfl 0, ?_⟩
    refine Option.bind_eq_some_iff.mpr ⟨_, rfl, ?_⟩
    refine Option.bind_eq_some_iff.mpr ⟨_, rfl, ?_⟩
    refine Option.bind_eq_some_iff.mpr ⟨_, rfl, ?_⟩
    refine Option.bind_eq_some_iff.mpr ⟨_, metadata?_form hentries, ?_⟩
    exact Option.bind_eq_some_iff.mpr ⟨_, instant?_instant (hdates _ List.mem_cons_self), rfl⟩
  bounded _ _ _ := fun _ hn => absurd hn List.not_mem_nil
  ofJson?_null _ hname := absurd hname List.not_mem_nil

instance : Contents BucketRecord where
  dates b := [b.creationDate]

instance : Lawful BucketRecord where
  form_toJson _ := rfl
  ofJson?_form := by
    rintro b _ rfl hdates _
    have hmembers : toJson b = .object (present (["name", "creationDate"].zip
        [some (string b.name), some (instant b.creationDate)])) := by
      simp [toJson, present, optional]
    rw [hmembers]
    refine Option.bind_eq_some_iff.mpr ⟨_, fields?_present (by decide) rfl 0, ?_⟩
    refine Option.bind_eq_some_iff.mpr ⟨_, rfl, ?_⟩
    exact Option.bind_eq_some_iff.mpr ⟨_, instant?_instant (hdates _ List.mem_cons_self), rfl⟩
  bounded _ _ _ := fun _ hn => absurd hn List.not_mem_nil
  ofJson?_null _ hname := absurd hname List.not_mem_nil

instance : Contents Versioning where

instance : Lawful Versioning where
  form_toJson _ := rfl
  ofJson?_form := by
    rintro v _ rfl _ _
    cases v <;> rfl
  bounded _ _ _ := fun _ hn => absurd hn List.not_mem_nil
  ofJson?_null _ hname := absurd hname List.not_mem_nil

instance : Contents PartChoice where

instance : Lawful PartChoice where
  form_toJson _ := rfl
  ofJson?_form := by
    rintro c _ rfl _ _
    have hmembers : toJson c = .object (present (["partNumber", "etag"].zip
        [some (.natural c.number.toNat), some (string c.etag)])) := by
      simp [toJson, present, optional]
    rw [hmembers]
    refine Option.bind_eq_some_iff.mpr ⟨_, fields?_present (by decide) rfl 0, ?_⟩
    refine Option.bind_eq_some_iff.mpr ⟨_, naturalBelow?_natural c.number.toNat_lt_size, ?_⟩
    refine Option.bind_eq_some_iff.mpr ⟨_, rfl, ?_⟩
    rw [Nat.toUInt32, UInt32.ofNat_toNat]
  bounded _ _ _ := fun _ hn => absurd hn List.not_mem_nil
  ofJson?_null _ hname := absurd hname List.not_mem_nil

instance : Contents Settings where
  numbers s := [s.maxKeys, s.maxParts, s.maxUploads, s.maxBuckets].map (fun n => (n, UInt64.size))

instance : Lawful Settings where
  form_toJson _ := rfl
  ofJson?_form := by
    rintro s _ rfl _ hnumbers
    have hmembers : toJson s = .object (present (["defaultMaxKeys", "defaultMaxParts", "defaultMaxUploads",
        "defaultMaxBuckets", "logLevel"].zip [some (.natural s.maxKeys), some (.natural s.maxParts),
        some (.natural s.maxUploads), some (.natural s.maxBuckets), some (string s.logLevel)])) := by
      simp [toJson, present, optional]
    have hbelow : ∀ n ∈ [s.maxKeys, s.maxParts, s.maxUploads, s.maxBuckets],
        naturalBelow? UInt64.size (some (.natural n)) = some n :=
      fun n hn => naturalBelow?_natural (hnumbers (n, UInt64.size) (List.mem_map_of_mem hn))
    rw [hmembers]
    refine Option.bind_eq_some_iff.mpr ⟨_, fields?_present (by decide) rfl 0, ?_⟩
    refine Option.bind_eq_some_iff.mpr ⟨_, hbelow s.maxKeys (by simp), ?_⟩
    refine Option.bind_eq_some_iff.mpr ⟨_, hbelow s.maxParts (by simp), ?_⟩
    refine Option.bind_eq_some_iff.mpr ⟨_, hbelow s.maxUploads (by simp), ?_⟩
    refine Option.bind_eq_some_iff.mpr ⟨_, hbelow s.maxBuckets (by simp), ?_⟩
    exact Option.bind_eq_some_iff.mpr ⟨_, rfl, rfl⟩
  bounded j s hread := by
    obtain ⟨values, _, hread⟩ := Option.bind_eq_some_iff.mp hread
    split at hread
    · simp only [Option.bind_eq_bind, Option.bind_eq_some_iff] at hread
      obtain ⟨keys, hkeys, parts, hparts, uploads, huploads, buckets, hbuckets, _, _, heq⟩ := hread
      obtain rfl := Option.some.inj heq
      simp only [Bounded, Contents.numbers, List.forall_mem_map, List.forall_mem_cons]
      exact ⟨naturalBelow?_lt hkeys, naturalBelow?_lt hparts, naturalBelow?_lt huploads, naturalBelow?_lt hbuckets,
        fun _ hn => absurd hn List.not_mem_nil⟩
    · cases hread
  ofJson?_null _ hname := absurd hname List.not_mem_nil

end BucketStore.Record
