import BucketStore.Proofs.Engine.Invariant
import BucketStore.Proofs.Engine.Reading
import BucketStore.Proofs.Listing.EmptyMarker
import BucketStore.Proofs.Store.Versions

namespace BucketStore.Engine

open Listing

/-- One page of versions for a client that keeps to one stem, delimiter and cap. A place is a key
marker with a version ID marker. -/
def readVersions (name : String) (stem delimiter : Option String) (cap : Nat) (e : Engine)
    (place : Option String × Option String) : Except StoreError VersionPage :=
  e.listVersions name stem delimiter place.1 place.2 (some cap)

def resumeVersions (p : VersionPage) : Option (Option String × Option String) :=
  if p.truncated then some (p.nextMarker, p.nextVersionIdMarker) else none

abbrev VersionReading (name : String) (stem delimiter : Option String) (cap : Nat)
    (between : Request → Prop) : Engine → Option String × Option String →
      List (Visit (Option String × Option String) VersionPage) → Prop :=
  Reading (readVersions name stem delimiter cap) resumeVersions between

def versionQuery (stem delimiter : Option String) (cap : Nat) (place : Option String × Option String) :
    VersionQuery :=
  ⟨⟨stem.getD "", delimiter.getD "", place.1.getD "", cap⟩, place.2.getD ""⟩

variable {e : Engine} {n : UInt64} {name : String} {b : Bucket} {stem delimiter : Option String} {cap : Nat}
  {place next : Option String × Option String} {page : VersionPage} {between : Request → Prop}
  {visits : List (Visit (Option String × Option String) VersionPage)}

theorem readVersions_eq_ok : readVersions name stem delimiter cap e place = .ok page ↔
    ∃ b, e.buckets.get? name = some b ∧
      page = b.store.listVersions (versionQuery stem delimiter cap place) := by
  rw [readVersions, listVersions, bind_eq_ok]
  constructor
  · rintro ⟨b, hb, h⟩
    cases h
    exact ⟨b, bucket_eq_ok.mp hb, rfl⟩
  · rintro ⟨b, hb, rfl⟩
    exact ⟨b, bucket_eq_ok.mpr hb, rfl⟩

theorem resumeVersions_eq_none : resumeVersions page = none ↔ page.truncated = false := by
  rw [resumeVersions]
  cases page.truncated <;> simp

theorem resumeVersions_eq_some : resumeVersions page = some next ↔
    page.truncated = true ∧ next = (page.nextMarker, page.nextVersionIdMarker) := by
  rw [resumeVersions]
  cases page.truncated <;> simp [eq_comm]

def PlaceOf (s : ObjectStore) (place : Option String × Option String) : Prop :=
  s.isVersioned = true ∨ place.2 = none

theorem readVersions_page (hb : e.buckets.get? name = some b) (hplace : PlaceOf b.store place)
    (answer : readVersions name stem delimiter cap e place = .ok page) :
    page.toPage = Page.cut cap (b.store.versionsFrom (versionQuery stem delimiter cap place)) := by
  obtain ⟨b', hb', rfl⟩ := readVersions_eq_ok.mp answer
  obtain rfl : b = b' := Option.some.inj (hb.symm.trans hb')
  apply ObjectStore.listVersions_eq_cut
  refine hplace.imp id (fun hid hin => hin.2 ?_)
  rw [versionQuery, hid]
  rfl

theorem readVersions_final (hb : e.buckets.get? name = some b) (hplace : PlaceOf b.store place)
    (answer : readVersions name stem delimiter cap e place = .ok page) (final : resumeVersions page = none) :
    page.items = b.store.versionsFrom (versionQuery stem delimiter cap place) := by
  have hpage := readVersions_page hb hplace answer
  have hfinal := resumeVersions_eq_none.mp final
  rw [hpage] at hfinal ⊢
  exact Page.cut_final hfinal

theorem readVersions_turn (hcap : 1 ≤ cap) (hb : e.buckets.get? name = some b)
    (hplace : PlaceOf b.store place) (answer : readVersions name stem delimiter cap e place = .ok page)
    (more : resumeVersions page = some next) : ∃ front x back,
      b.store.versionsFrom (versionQuery stem delimiter cap place) = front ++ x :: back ∧
      page.items = front ++ [x] ∧ next = (some x.mark, b.store.versionMarker x) ∧ front.length + 1 = cap := by
  have hpage := readVersions_page hb hplace answer
  obtain ⟨htruncated, hnext⟩ := resumeVersions_eq_some.mp more
  have hcut := htruncated
  rw [hpage] at hcut
  obtain ⟨front, x, back, hsplit, hitems, hmarker, hlength⟩ := Page.cut_truncated hcap hcut
  rw [← hpage] at hitems hmarker
  have hid : page.nextVersionIdMarker = b.store.versionMarker x := by
    obtain ⟨b', hb', rfl⟩ := readVersions_eq_ok.mp answer
    obtain rfl : b = b' := Option.some.inj (hb.symm.trans hb')
    cases hs : b.store with
    | plain s => rfl
    | versioned s =>
        rw [hs] at hitems htruncated
        have hlast : lastVersionId ((ObjectStore.versioned s).listVersions
            (versionQuery stem delimiter cap place)).toPage = x.value?.map (fun r => r.version.idOrNull) := by
          rw [lastVersionId, if_pos htruncated, hitems]
          simp
        exact hlast
  exact ⟨front, x, back, hsplit, hitems, by rw [hnext, hmarker, hid], hlength⟩

theorem placeOf_versionMarker (s : ObjectStore) (x : Item VersionRow) :
    PlaceOf s (some x.mark, s.versionMarker x) := by
  rw [PlaceOf, ObjectStore.versionMarker]
  cases s.isVersioned <;> simp

theorem readVersions_going (hcap : 1 ≤ cap) (hs : b.store.Sound n) (hb : e.buckets.get? name = some b)
    (hplace : PlaceOf b.store place)
    (hleft : b.store.versionsFrom (versionQuery stem delimiter cap place) <:+
      b.store.versionItems (stem.getD "") (delimiter.getD ""))
    (hgo : (Page.cut cap (b.store.versionsFrom (versionQuery stem delimiter cap place))).nextMarker ≠ some "")
    (answer : readVersions name stem delimiter cap e place = .ok page) (more : resumeVersions page = some next) :
    (PlaceOf b.store next ∧ b.store.versionsFrom (versionQuery stem delimiter cap next) <:+
        b.store.versionItems (stem.getD "") (delimiter.getD "") ∧
      (Page.cut cap (b.store.versionsFrom (versionQuery stem delimiter cap next))).nextMarker ≠ some "") ∧
    page.items ++ b.store.versionsFrom (versionQuery stem delimiter cap next) =
      b.store.versionsFrom (versionQuery stem delimiter cap place) ∧ page.items.length = cap := by
  have hpage := readVersions_page hb hplace answer
  have hmarker := (resumeVersions_eq_some.mp more).2
  obtain ⟨front, x, back, hsplit, hitems, rfl, hlength⟩ := readVersions_turn hcap hb hplace answer more
  have hne : x.mark ≠ "" := by
    rw [← hpage, ← (Prod.mk.inj hmarker).1] at hgo
    exact fun hmark => hgo (congrArg some hmark)
  obtain ⟨passed, hwhole⟩ := hleft
  rw [hsplit, ← List.append_assoc] at hwhole
  have hnext : b.store.versionsFrom (versionQuery stem delimiter cap (some x.mark, b.store.versionMarker x)) =
      back := hs.versionsFrom_after hne hwhole.symm rfl rfl
  have hback : ∀ y ∈ back, y.mark ≠ "" := by
    have hpairwise := ObjectStore.versionsFrom_pairwise (versionQuery stem delimiter cap place) b.store
    rw [hsplit] at hpairwise
    intro y hy
    rcases (List.pairwise_cons.mp (List.pairwise_append.mp hpairwise).2.1).1 y hy with hlt | ⟨_, _, _, _, rfl, rfl⟩
    · exact (empty_lt hne |>.trans hlt).ne'
    · exact hne
  rw [hnext, hsplit, hitems]
  refine ⟨⟨placeOf_versionMarker _ _, ⟨passed ++ front ++ [x], ?_⟩, Page.cut_goes_on hback⟩, ?_, ?_⟩
  · rw [← hwhole]
    simp
  · simp
  · rw [List.length_append, List.length_singleton, hlength]

theorem version_mark_ne_empty {s : ObjectStore} {stem delimiter : String} {i : Item VersionRow}
    (hempty : s.history "" = []) (hi : i ∈ s.versionItems stem delimiter) : i.mark ≠ "" := by
  cases i with
  | row key r =>
      obtain ⟨_, _, hr⟩ := ObjectStore.mem_versionItems_row.mp hi
      rintro rfl
      rw [hempty] at hr
      cases hr
  | commonPrefix cp =>
      obtain ⟨e, _, hr⟩ := ObjectStore.mem_versionItems_commonPrefix.mp hi
      exact rolledUp?_ne_empty hr

theorem readVersions_unchanged (hcap : 1 ≤ cap) (hs : b.store.Sound n) (hempty : b.store.history "" = [])
    (hb : e.buckets.get? name = some b) (hplace : PlaceOf b.store place)
    (hleft : b.store.versionsFrom (versionQuery stem delimiter cap place) <:+
      b.store.versionItems (stem.getD "") (delimiter.getD ""))
    (answer : readVersions name stem delimiter cap e place = .ok page) (more : resumeVersions page = some next) :
    (PlaceOf b.store next ∧ b.store.versionsFrom (versionQuery stem delimiter cap next) <:+
      b.store.versionItems (stem.getD "") (delimiter.getD "")) ∧
    page.items ++ b.store.versionsFrom (versionQuery stem delimiter cap next) =
      b.store.versionsFrom (versionQuery stem delimiter cap place) ∧ page.items.length = cap := by
  have hgo : (Page.cut cap (b.store.versionsFrom (versionQuery stem delimiter cap place))).nextMarker ≠ some "" :=
    Page.cut_goes_on (fun i hi => version_mark_ne_empty hempty (hleft.subset hi))
  obtain ⟨⟨hplace', hleft', _⟩, hsplit, hlength⟩ := readVersions_going hcap hs hb hplace hleft hgo answer more
  exact ⟨⟨hplace', hleft'⟩, hsplit, hlength⟩

theorem versionsFrom_none (stem delimiter : Option String) (cap : Nat) (s : ObjectStore) :
    s.versionsFrom (versionQuery stem delimiter cap (none, none)) =
      s.versionItems (stem.getD "") (delimiter.getD "") :=
  ObjectStore.versionsFrom_start _ _ _ _ s

theorem VersionReading.flatMap_unchanged (hcap : 1 ≤ cap) (hs : b.store.Sound n)
    (hempty : b.store.history "" = [])
    (h : VersionReading name stem delimiter cap between e (none, none) visits)
    (hsame : ∀ v ∈ visits, v.engine.buckets.get? name = some b) :
    visits.flatMap (fun v => v.page.items) = b.store.versionItems (stem.getD "") (delimiter.getD "") := by
  rw [← versionsFrom_none stem delimiter cap b.store]
  apply h.flatMap_items (fun p => p.items) (fun place => b.store.versionsFrom (versionQuery stem delimiter cap place))
    (fun e => e.buckets.get? name = some b) (fun place => PlaceOf b.store place ∧
      b.store.versionsFrom (versionQuery stem delimiter cap place) <:+
        b.store.versionItems (stem.getD "") (delimiter.getD ""))
  · intro e place page hb hP answer final
    exact readVersions_final hb hP.1 answer final
  · intro e place page next hb hP answer more
    obtain ⟨hP', hsplit, _⟩ := readVersions_unchanged hcap hs hempty hb hP.1 hP.2 answer more
    exact ⟨hP', hsplit⟩
  · exact hsame
  · rw [versionsFrom_none]
    exact ⟨.inr rfl, List.suffix_rfl⟩

theorem exists_versionReading (hcap : 1 ≤ cap) (hs : b.store.Sound n) (hempty : b.store.history "" = [])
    (hb : e.buckets.get? name = some b) :
    ∃ visits, VersionReading name stem delimiter cap between e (none, none) visits ∧
      ∀ v ∈ visits, v.engine = e := by
  apply Reading.exists_of_decreasing between (fun place => PlaceOf b.store place ∧
      b.store.versionsFrom (versionQuery stem delimiter cap place) <:+
        b.store.versionItems (stem.getD "") (delimiter.getD ""))
    (fun place => (b.store.versionsFrom (versionQuery stem delimiter cap place)).length)
  · intro place hP
    have answer : readVersions name stem delimiter cap e place =
        .ok (b.store.listVersions (versionQuery stem delimiter cap place)) :=
      readVersions_eq_ok.mpr ⟨b, hb, rfl⟩
    refine ⟨_, answer, fun next more => ?_⟩
    obtain ⟨hP', hsplit, hlength⟩ := readVersions_unchanged hcap hs hempty hb hP.1 hP.2 answer more
    have hless := congrArg List.length hsplit
    rw [List.length_append, hlength] at hless
    exact ⟨hP', by omega⟩
  · rw [versionsFrom_none]
    exact ⟨.inr rfl, List.suffix_rfl⟩

theorem VersionReading.length_page (hcap : 1 ≤ cap)
    (h : VersionReading name stem delimiter cap between e place visits) (hplace : PlaceOf b.store place)
    (hsame : ∀ v ∈ visits, v.engine.buckets.get? name = some b) :
    ∀ v ∈ visits, v.page.items.length ≤ cap ∧ (v.page.truncated = true → v.page.items.length = cap) := by
  induction h with
  | last answer final =>
      have hpage := readVersions_page (hsame _ List.mem_cons_self) hplace answer
      have hfinal := resumeVersions_eq_none.mp final
      simp only [List.forall_mem_cons, List.not_mem_nil, false_imp_iff, implies_true, and_true]
      refine ⟨?_, fun htruncated => ?_⟩
      · rw [hpage]
        exact Page.length_cut_le cap _
      · rw [hfinal] at htruncated
        cases htruncated
  | turn answer more allowed rest ih =>
      obtain ⟨hb, hsame⟩ := List.forall_mem_cons.mp hsame
      obtain ⟨front, x, back, _, hitems, rfl, hlength⟩ := readVersions_turn hcap hb hplace answer more
      have hfull := congrArg List.length hitems
      rw [List.length_append, List.length_singleton, hlength] at hfull
      exact List.forall_mem_cons.mpr ⟨⟨hfull.le, fun _ => hfull⟩, ih (placeOf_versionMarker _ _) hsame⟩

/-- While a bucket stays as it is, its versions are read to the end, in full pages, each once and
in order: every history that is not rolled up whole and newest first, and every common prefix. -/
theorem versions_read_once (he : ReachableUnwrapped e) (hb : e.buckets.get? name = some b)
    (hempty : b.store.history "" = []) (hcap : 1 ≤ cap) :
    (∃ visits, VersionReading name stem delimiter cap between e (none, none) visits ∧
      ∀ v ∈ visits, v.engine = e) ∧
    ∀ visits, VersionReading name stem delimiter cap between e (none, none) visits →
      (∀ v ∈ visits, v.engine.buckets.get? name = some b) →
      (∀ v ∈ visits, v.page.rows.length + v.page.commonPrefixes.length ≤ cap ∧
        (v.page.truncated = true → v.page.rows.length + v.page.commonPrefixes.length = cap)) ∧
      visits.flatMap (fun v => v.page.rows) = (b.store.histories.filter (fun e => Under (stem.getD "") e.1 ∧
        rolledUp? (stem.getD "") (delimiter.getD "") e.1 = none)).flatMap (fun e => historyRows e.2) ∧
      (visits.flatMap (fun v => v.page.commonPrefixes)).Pairwise (· < ·) ∧
      ∀ cp, cp ∈ visits.flatMap (fun v => v.page.commonPrefixes) ↔
        ∃ e ∈ b.store.histories, rolledUp? (stem.getD "") (delimiter.getD "") e.1 = some cp := by
  have hs := (he.sound name b hb).store
  refine ⟨exists_versionReading hcap hs hempty hb, fun visits h hsame => ?_⟩
  have hall := VersionReading.flatMap_unchanged hcap hs hempty h hsame
  have hprefixes : visits.flatMap (fun v => v.page.commonPrefixes) =
      (b.store.versionItems (stem.getD "") (delimiter.getD "")).filterMap Item.commonPrefix? := by
    rw [← hall, List.filterMap_flatMap]
    rfl
  refine ⟨?_, ?_, ?_, ?_⟩
  · intro v hv
    rw [← Page.length_items]
    exact VersionReading.length_page hcap h (.inr rfl) hsame v hv
  · have hrows : visits.flatMap (fun v => v.page.rows) =
        (b.store.versionItems (stem.getD "") (delimiter.getD "")).filterMap Item.value? := by
      rw [← hall, List.filterMap_flatMap]
      rfl
    rw [hrows, ObjectStore.versionItems, value?_items, List.filter_map, List.flatMap_map]
    rfl
  · rw [hprefixes, ObjectStore.versionItems_eq]
    exact commonPrefix?_ascending (ObjectStore.versionsFrom_pairwise _ _)
  · intro cp
    rw [hprefixes, List.mem_filterMap, ← ObjectStore.mem_versionItems_commonPrefix]
    constructor
    · rintro ⟨i, hi, hcp⟩
      cases i with
      | row key r => cases hcp
      | commonPrefix cp' => cases hcp; exact hi
    · exact fun hcp => ⟨_, hcp, rfl⟩

def twoVersions : Engine :=
  ((fresh {} 1).run [.createBucket "b", .putVersioning "b" "Enabled", .putObject "b" "a/1" [] {},
    .putObject "b" "k" [] {}, .putObject "b" "k" [] {}]).2

theorem twoVersions_reachable : ReachableUnwrapped twoVersions := by
  refine .step (.putObject "b" "k" [] {}) (.step (.putObject "b" "k" [] {}) (.step (.putObject "b" "a/1" [] {})
    (.step (.putVersioning "b" "Enabled") (.step (.createBucket "b") (.fresh {} 1) ?_) ?_) ?_) ?_) ?_
  all_goals decide

theorem versions_read_once_across_pages :
    ∃ visits, VersionReading "b" none (some "/") 2 (fun _ => True) twoVersions (none, none) visits ∧
      (visits.flatMap (fun v => v.page.rows)).map (fun r => (r.version.key, r.version.idOrNull, r.isLatest)) =
        [("k", VersionId.ofCounter 3, true), ("k", VersionId.ofCounter 2, false)] ∧
      "a/" ∈ visits.flatMap (fun v => v.page.commonPrefixes) := by
  obtain ⟨b, hb, hempty, hrows, hprefix⟩ : ∃ b, twoVersions.buckets.get? "b" = some b ∧
      b.store.history "" = [] ∧
      ((b.store.histories.filter (fun e => Under "" e.1 ∧ rolledUp? "" "/" e.1 = none)).flatMap
        (fun e => historyRows e.2)).map (fun r => (r.version.key, r.version.idOrNull, r.isLatest)) =
          [("k", VersionId.ofCounter 3, true), ("k", VersionId.ofCounter 2, false)] ∧
      ∃ e ∈ b.store.histories, rolledUp? "" "/" e.1 = some "a/" :=
    ⟨_, rfl, by decide, by decide, by decide⟩
  obtain ⟨⟨visits, hreading, hsame⟩, hall⟩ :=
    versions_read_once twoVersions_reachable hb hempty (by decide : 1 ≤ 2)
  obtain ⟨_, hread, _, hcommon⟩ := hall visits hreading (fun v hv => by rw [hsame v hv, hb])
  exact ⟨visits, hreading, by rw [hread]; exact hrows, (hcommon "a/").mpr hprefix⟩

end BucketStore.Engine
