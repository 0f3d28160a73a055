import BucketStore.Proofs.Engine.UploadLife
import BucketStore.Proofs.NamedPage

namespace BucketStore

open Listing

namespace Sessions

variable {name stem : String} {s : Sessions} {u : Upload}

theorem listed_perm (s : Sessions) (stem : String) :
    (s.listed stem).Perm (s.uploads.filter (fun u => stem.toList <+: u.key.toList)) := List.mergeSort_perm _ _

theorem listed_ascending (s : Sessions) (stem : String) : (s.listed stem).Pairwise (fun u w => u.key ≤ w.key) := by
  refine (List.pairwise_mergeSort ?_ ?_ _).imp (fun h => by simpa using h)
  · intro u v w huv hvw
    simp only [decide_eq_true_eq] at *
    exact le_trans huv hvw
  · intro u v
    simpa using le_total u.key v.key

theorem Filed.listed_ids (hs : s.Filed name) (stem : String) : ((s.listed stem).map (·.id)).Nodup :=
  ((s.listed_perm stem).map _).nodup_iff.mpr (hs.ids.sublist (List.filter_sublist.map _))

theorem Filed.mem_listed_iff (hs : s.Filed name) :
    u ∈ s.listed stem ↔ s.find? u.id = some u ∧ Under stem u.key := by
  rw [(s.listed_perm stem).mem_iff, List.mem_filter, decide_eq_true_eq]
  exact and_congr_left' ⟨fun hu => (hs.uploads u hu).1, List.mem_of_find?_eq_some⟩

end Sessions

namespace Engine

variable {e : Engine} {name : String} {stem token : Option String} {cap : Option Nat} {b : Bucket}

theorem Filed.listBuckets_eq (he : e.Filed) : e.listBuckets = e.buckets.keys := by
  rw [listBuckets, Table.values, List.map_map, Table.keys]
  exact List.map_congr_left (fun p hp => (he p.1 p.2 (Table.mem_entries.mp hp)).1)

theorem Filed.listBuckets_ascending (he : e.Filed) : e.listBuckets.Pairwise (· < ·) := by
  rw [he.listBuckets_eq]
  exact List.pairwise_map.mpr e.buckets.ascending

theorem Filed.mem_listBuckets_iff (he : e.Filed) : name ∈ e.listBuckets ↔ e.buckets.contains name = true := by
  rw [he.listBuckets_eq, Table.keys, List.mem_map, Table.contains, Option.isSome_iff_exists]
  constructor
  · rintro ⟨⟨_, b⟩, hb, rfl⟩
    exact ⟨b, Table.mem_entries.mp hb⟩
  · rintro ⟨b, hb⟩
    exact ⟨(name, b), Table.mem_entries.mpr hb, rfl⟩

theorem listUploads_of_bucket (hb : e.buckets.get? name = some b) (stem token : Option String) (cap : Option Nat) :
    e.listUploads name stem token cap = .ok (NamedPage.cut (·.id)
      ((b.sessions.listed (stem.getD "")).map Upload.toUploadSummary) token (cap.getD e.settings.maxUploads)) := by
  rw [listUploads, bucket_eq_ok.mpr hb]
  rfl

theorem Reachable.buckets_covered (he : Reachable e) (hcap : 1 ≤ cap.getD e.settings.maxBuckets) :
    NamedPage.Covers (fun token => .ok (e.listBucketsPage token cap)) e.listBuckets
      (cap.getD e.settings.maxBuckets) := by
  refine NamedPage.covers_of_nodup hcap ?_ (fun token => rfl)
  rw [List.map_id]
  exact he.filed.listBuckets_ascending.imp (fun hlt => hlt.ne)

theorem Reachable.uploads_covered (he : Reachable e) (hb : e.buckets.get? name = some b) (stem : Option String) :
    ∃ uploads : List UploadSummary,
      (∀ cap : Option Nat, 1 ≤ cap.getD e.settings.maxUploads →
        NamedPage.Covers (fun token => e.listUploads name stem token cap) uploads (cap.getD e.settings.maxUploads)) ∧
      uploads.Pairwise (fun u w => u.key ≤ w.key) ∧ (uploads.map (·.id)).Nodup ∧
      ∀ u, u ∈ uploads ↔ ∃ w, e.upload? name u.id = some w ∧ Under (stem.getD "") w.key ∧ w.toUploadSummary = u := by
  have hs := he.sessions_filed name b hb
  have hids : (((b.sessions.listed (stem.getD "")).map Upload.toUploadSummary).map (·.id)).Nodup := by
    rw [List.map_map]
    exact hs.listed_ids (stem.getD "")
  refine ⟨(b.sessions.listed (stem.getD "")).map Upload.toUploadSummary, fun cap hcap => ?_, ?_, hids, fun u => ?_⟩
  · exact NamedPage.covers_of_nodup hcap hids (fun token => listUploads_of_bucket hb stem token cap)
  · exact List.pairwise_map.mpr (b.sessions.listed_ascending (stem.getD ""))
  · rw [List.mem_map, upload?_of_bucket hb]
    constructor
    · rintro ⟨w, hw, rfl⟩
      obtain ⟨hfind, hunder⟩ := hs.mem_listed_iff.mp hw
      exact ⟨w, hfind, hunder, rfl⟩
    · rintro ⟨w, hfind, hunder, rfl⟩
      exact ⟨w, hs.mem_listed_iff.mpr ⟨hfind, hunder⟩, rfl⟩

/-- A list whose items have names of their own is read through by the names of the items past each page, in no more
pages than it fills, and so are the buckets, and the uploads of a bucket, of every engine. -/
theorem named_pages_cover :
    (∀ (α : Type) (name : α → String) (items : List α) (cap : Nat),
      ((items.map name).Nodup → 1 ≤ cap →
        NamedPage.Covers (fun token => .ok (NamedPage.cut name items token cap)) items cap) ∧
      (items.length < UInt64.size → ∀ token,
        NamedPage.Stretch name items (NamedPage.startIndex name items token)
          (NamedPage.stop (NamedPage.startIndex name items token) cap items.length)
          (NamedPage.cut name items token cap)) ∧
      ∀ token, (∀ a ∈ items, name a ≠ token) →
        NamedPage.cut name items (some token) cap = NamedPage.cut name items none cap) ∧
    ∀ e, Reachable e →
      (∀ cap : Option Nat, 1 ≤ cap.getD e.settings.maxBuckets →
        NamedPage.Covers (fun token => .ok (e.listBucketsPage token cap)) e.listBuckets
          (cap.getD e.settings.maxBuckets)) ∧
      e.listBuckets.Pairwise (· < ·) ∧ (∀ name, name ∈ e.listBuckets ↔ e.buckets.contains name = true) ∧
      ∀ name (stem : Option String), e.buckets.contains name = true → ∃ uploads : List UploadSummary,
        (∀ cap : Option Nat, 1 ≤ cap.getD e.settings.maxUploads →
          NamedPage.Covers (fun token => e.listUploads name stem token cap) uploads
            (cap.getD e.settings.maxUploads)) ∧
        uploads.Pairwise (fun u w => u.key ≤ w.key) ∧ (uploads.map (·.id)).Nodup ∧
        ∀ u, u ∈ uploads ↔
          ∃ w, e.upload? name u.id = some w ∧ Under (stem.getD "") w.key ∧ w.toUploadSummary = u := by
  refine ⟨fun α name items cap => ⟨?_, ?_, ?_⟩, fun e he => ⟨?_, ?_, ?_, ?_⟩⟩
  · exact fun hnames hcap => NamedPage.covers_of_nodup hcap hnames (fun _ => rfl)
  · exact fun hlength token => NamedPage.cut_stretch hlength token cap
  · exact fun token hunnamed => NamedPage.cut_of_unnamed hunnamed cap
  · exact fun cap hcap => he.buckets_covered hcap
  · exact he.filed.listBuckets_ascending
  · exact fun name => he.filed.mem_listBuckets_iff
  · intro name stem hname
    obtain ⟨b, hb⟩ := Option.isSome_iff_exists.mp hname
    exact he.uploads_covered hb stem

def namedListings : Engine :=
  ((fresh {} 0).run [.createBucket "b", .createBucket "a", .createUpload "b" "k" "u" {}, .createUpload "b" "j" "v" {},
    .uploadPart "b" "j" "v" 1 [1]]).2

theorem names_and_namedListings_covered :
    NamedPage.Covers (fun token => .ok (NamedPage.cut id ["x", "y", "z"] token 2)) ["x", "y", "z"] 2 ∧
    NamedPage.Stretch id ["x", "y", "z"] 1 3 (NamedPage.cut id ["x", "y", "z"] (some "y") (2 ^ 64 - 1)) ∧
    NamedPage.cut id ["x", "y", "z"] (some "w") 2 = NamedPage.cut id ["x", "y", "z"] none 2 ∧
    NamedPage.Covers (fun token => .ok (namedListings.listBucketsPage token (some 1))) ["a", "b"] 1 ∧
    ∃ uploads, NamedPage.Covers (fun token => namedListings.listUploads "b" none token (some 1)) uploads 1 ∧
      uploads.Pairwise (fun u w => u.key ≤ w.key) ∧
      ⟨"u", "b", "k", {}⟩ ∈ uploads ∧ ⟨"v", "b", "j", {}⟩ ∈ uploads := by
  have hreachable : Reachable namedListings := (Reachable.fresh {} 0).run _
  obtain ⟨hlists, hengines⟩ := named_pages_cover
  obtain ⟨hcovers, _, hunnamed⟩ := hlists String id ["x", "y", "z"] 2
  obtain ⟨hbuckets, _, _, huploads⟩ := hengines namedListings hreachable
  obtain ⟨uploads, hpages, hkeys, _, hmem⟩ := huploads "b" none (by decide)
  refine ⟨hcovers (by decide) (by decide), ?_, hunnamed "w" (by decide), hbuckets (some 1) le_rfl, uploads,
    hpages (some 1) le_rfl, hkeys, ?_, ?_⟩
  · have hpage := (hlists String id ["x", "y", "z"] (2 ^ 64 - 1)).2.1 (by decide) (some "y")
    have hstart : NamedPage.startIndex id ["x", "y", "z"] (some "y") = 1 := by decide
    have hstop : NamedPage.stop 1 (2 ^ 64 - 1) ["x", "y", "z"].length = 3 := by
      simp [NamedPage.stop, UInt64.size]
    rwa [hstart, hstop] at hpage
  · exact (hmem _).mpr ⟨_, rfl, by decide, rfl⟩
  · exact (hmem _).mpr ⟨_, rfl, by decide, rfl⟩

end Engine

end BucketStore
