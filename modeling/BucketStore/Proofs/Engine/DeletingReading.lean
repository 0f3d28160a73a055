import BucketStore.Proofs.Engine.VersionReading
import BucketStore.Proofs.Store.Thinning

namespace BucketStore.Engine

open Listing

variable {e e' e'' : Engine} {n : UInt64} {name key : String} {b b' : Bucket} {stem delimiter : Option String}
  {cap : Nat} {place next : Option String × Option String} {page : VersionPage} {v : Version}
  {visits : List (Visit (Option String × Option String) VersionPage)}

def RemovesVersion (r : Request) : Prop := ∃ bucket key id, r = .deleteVersion bucket key id

theorem deleteVersion_step (e : Engine) (bucket key id : String) :
    (e.step (.deleteVersion bucket key id)).2 = e ∨ ∃ b, e.buckets.get? bucket = some b ∧
      (e.step (.deleteVersion bucket key id)).2 =
        e.setBucket bucket { b with store := (b.store.dropVersion key id).2 } := by
  cases h : e.deleteVersion bucket key id with
  | error cause =>
      refine .inl ?_
      simp only [step, answer, h]
      rfl
  | ok p =>
      obtain ⟨d, e'⟩ := p
      have hstep : (e.step (.deleteVersion bucket key id)).2 = e' := by
        simp only [step, answer, h]
        rfl
      rw [hstep]
      obtain ⟨b, hb, h⟩ := bind_eq_ok.mp h
      cases hdrop : b.store.dropVersion key id with
      | mk found store =>
          rw [hdrop] at h
          cases found with
          | none => cases h; exact .inl rfl
          | some w => cases h; exact .inr ⟨b, bucket_eq_ok.mp hb, by rw [hdrop]⟩

/-- Some versions are gone from the bucket, and nothing else happened to its histories. -/
def Thins (name : String) (e e' : Engine) : Prop :=
  ∀ b', e'.buckets.get? name = some b' → ∃ b, e.buckets.get? name = some b ∧
    b'.store.isVersioned = b.store.isVersioned ∧ ∀ key, (b'.store.history key).Sublist (b.store.history key)

theorem Thins.refl (e : Engine) : Thins name e e := fun b hb => ⟨b, hb, rfl, fun _ => .refl _⟩

theorem Thins.trans (h : Thins name e e') (h' : Thins name e' e'') : Thins name e e'' := by
  intro b'' hb''
  obtain ⟨b', hb', hversioned', hsub'⟩ := h' b'' hb''
  obtain ⟨b, hb, hversioned, hsub⟩ := h b' hb'
  exact ⟨b, hb, hversioned'.trans hversioned, fun key => (hsub' key).trans (hsub key)⟩

theorem Thins.sublist (h : Thins name e e') (hb : e.buckets.get? name = some b)
    (hb' : e'.buckets.get? name = some b') (key : String) :
    (b'.store.history key).Sublist (b.store.history key) := by
  obtain ⟨c, hc, _, hsub⟩ := h b' hb'
  obtain rfl : b = c := Option.some.inj (hb.symm.trans hc)
  exact hsub key

theorem thins_step {r : Request} (hr : RemovesVersion r) (e : Engine) : Thins name e (e.step r).2 := by
  obtain ⟨bucket, key, id, rfl⟩ := hr
  rcases deleteVersion_step e bucket key id with hsame | ⟨b, hb, hdrop⟩
  · rw [hsame]
    exact .refl e
  · rw [hdrop]
    intro b' hb'
    rw [setBucket, Table.get?_insert] at hb'
    split at hb'
    · rename_i hname
      cases hb'
      exact ⟨b, hname ▸ hb, ObjectStore.isVersioned_dropVersion _ _ _,
        ObjectStore.history_dropVersion_sublist _ _ _⟩
    · exact ⟨b', hb', rfl, fun _ => .refl _⟩

theorem thins_run {rs : List Request} (hrs : ∀ r ∈ rs, RemovesVersion r) : Thins name e (e.run rs).2 := by
  induction rs generalizing e with
  | nil => exact .refl e
  | cons r rs ih =>
      exact (thins_step (hrs r List.mem_cons_self) e).trans (ih (fun s hs => hrs s (List.mem_cons_of_mem _ hs)))

structure Kept (name : String) (e : Engine) : Prop where
  sound : e.Sound
  filed : e.Filed
  keys : e.NoEmptyKey name

theorem Kept.step {r : Request} (hr : RemovesVersion r) (h : Kept name e) : Kept name (e.step r).2 := by
  have hcounter : (e.step r).2.nextVersion = e.nextVersion := by
    obtain ⟨bucket, key, id, rfl⟩ := hr
    rcases deleteVersion_step e bucket key id with hsame | ⟨b, _, hdrop⟩
    · rw [hsame]
    · rw [hdrop, setBucket]
  refine ⟨h.sound.step r (hcounter ▸ UInt64.le_refl _), h.filed.step r, fun b' hb' => ?_⟩
  obtain ⟨b, hb, _, hsub⟩ := thins_step hr e b' hb'
  have hempty := hsub ""
  rw [h.keys b hb] at hempty
  exact List.sublist_nil.mp hempty

theorem Kept.key_ne_empty (h : Kept name e) (hb : e.buckets.get? name = some b)
    (hv : v ∈ b.store.history key) : key ≠ "" := by
  rintro rfl
  rw [h.keys b hb] at hv
  cases hv

theorem Kept.run {rs : List Request} (hrs : ∀ r ∈ rs, RemovesVersion r) (h : Kept name e) :
    Kept name (e.run rs).2 :=
  Reading.run_preserves (fun _ _ hr hk => hk.step hr) hrs h

abbrev DeletingReading (name : String) (stem delimiter : Option String) (cap : Nat) :
    Engine → Option String × Option String → List (Visit (Option String × Option String) VersionPage) → Prop :=
  VersionReading name stem delimiter cap RemovesVersion

def Placed (name : String) (e : Engine) (place : Option String × Option String) : Prop :=
  ∀ b, e.buckets.get? name = some b → PlaceOf b.store place

theorem Thins.placed (h : Thins name e e') (hb : e.buckets.get? name = some b) (x : Item VersionRow) :
    Placed name e' (some x.mark, b.store.versionMarker x) := by
  intro b' hb'
  obtain ⟨c, hc, hversioned, _⟩ := h b' hb'
  obtain rfl : b = c := Option.some.inj (hb.symm.trans hc)
  rw [PlaceOf, hversioned]
  exact placeOf_versionMarker b.store x

theorem answered_bucket (answer : readVersions name stem delimiter cap e place = .ok page) :
    ∃ b, e.buckets.get? name = some b := by
  obtain ⟨b, hb, _⟩ := readVersions_eq_ok.mp answer
  exact ⟨b, hb⟩

theorem returned_or_left (hcap : 1 ≤ cap) (hb : e.buckets.get? name = some b) (hplace : PlaceOf b.store place)
    (answer : readVersions name stem delimiter cap e place = .ok page) (more : resumeVersions page = some next)
    {i : Item VersionRow} (hi : i ∈ b.store.versionsFrom (versionQuery stem delimiter cap place)) :
    i ∈ page.items ∨ ∃ x, next = (some x.mark, b.store.versionMarker x) ∧
      Item.Precedes b.store.RowBefore x i := by
  obtain ⟨front, x, back, hsplit, hitems, hnext, _⟩ := readVersions_turn hcap hb hplace answer more
  have hpairwise := ObjectStore.versionsFrom_pairwise (versionQuery stem delimiter cap place) b.store
  rw [hsplit] at hi hpairwise
  rw [List.append_cons, List.mem_append, ← hitems] at hi
  refine hi.imp (fun hi => hi) (fun hback => ⟨x, hnext, ?_⟩)
  exact (List.pairwise_cons.mp (List.pairwise_append.mp hpairwise).2.1).1 i hback

theorem DeletingReading.commonPrefix_returned (hcap : 1 ≤ cap) {cp : String}
    (h : DeletingReading name stem delimiter cap e place visits) (hplace : Placed name e place)
    (hcp : ∀ u ∈ visits, ∀ b, u.engine.buckets.get? name = some b →
      ∃ f ∈ b.store.histories, rolledUp? (stem.getD "") (delimiter.getD "") f.1 = some cp)
    (hpast : place.1.getD "" < cp) : ∃ u ∈ visits, .commonPrefix cp ∈ u.page.items := by
  induction h with
  | @last e place page answer final =>
      obtain ⟨b, hb⟩ := answered_bucket answer
      have hahead : .commonPrefix cp ∈ b.store.versionsFrom (versionQuery stem delimiter cap place) :=
        ObjectStore.mem_versionsFrom_commonPrefix.mpr ⟨hcp _ List.mem_cons_self b hb, hpast⟩
      rw [← readVersions_final hb (hplace b hb) answer final] at hahead
      exact ⟨_, List.mem_cons_self, hahead⟩
  | @turn e place page next rs visits answer more allowed rest ih =>
      obtain ⟨b, hb⟩ := answered_bucket answer
      obtain ⟨hhere, hlater⟩ := List.forall_mem_cons.mp hcp
      have hahead : .commonPrefix cp ∈ b.store.versionsFrom (versionQuery stem delimiter cap place) :=
        ObjectStore.mem_versionsFrom_commonPrefix.mpr ⟨hhere b hb, hpast⟩
      rcases returned_or_left hcap hb (hplace b hb) answer more hahead with hreturned | ⟨x, rfl, hx⟩
      · exact ⟨_, List.mem_cons_self, hreturned⟩
      · have hlt : x.mark < cp := by
          rcases hx with hlt | ⟨_, _, _, _, _, heq⟩
          · exact hlt
          · cases heq
        obtain ⟨u, hu, hreturned⟩ := ih ((thins_run allowed).placed hb x) hlater hlt
        exact ⟨u, List.mem_cons_of_mem _ hu, hreturned⟩

def Ahead (stem delimiter : Option String) (cap : Nat) (b : Bucket) (place : Option String × Option String)
    (key : String) (v : Version) : Prop :=
  ∃ r, r.version = v ∧ .row key r ∈ b.store.versionsFrom (versionQuery stem delimiter cap place)

theorem ahead_of_lt (hu : Under (stem.getD "") key)
    (hrolled : rolledUp? (stem.getD "") (delimiter.getD "") key = none) (hv : v ∈ b.store.history key)
    (hlt : place.1.getD "" = "" ∨ place.1.getD "" < key) : Ahead stem delimiter cap b place key v := by
  obtain ⟨r, hr, hrv⟩ := ObjectStore.exists_row hv
  refine ⟨r, hrv, ObjectStore.mem_versionsFrom_row.mpr ⟨hu, hrolled, ?_, .inl hlt⟩⟩
  rw [VersionQuery.rowsOf, if_neg]
  · exact hr
  · rintro ⟨hin, heq⟩
    rcases hlt with hempty | hlt
    · exact hin.1 hempty
    · exact hlt.ne' heq

theorem ahead_or_overlooks {n' : UInt64} (hs : b.store.Sound n) (hs' : b'.store.Sound n')
    (hsub : (b'.store.history key).Sublist (b.store.history key)) (hkey : key ≠ "")
    (hu : Under (stem.getD "") key) (hrolled : rolledUp? (stem.getD "") (delimiter.getD "") key = none)
    (hv : v ∈ b'.store.history key) {x : Item VersionRow} {r : VersionRow} (hr : r.version = v)
    (hx : Item.Precedes b.store.RowBefore x (.row key r)) :
    Ahead stem delimiter cap b' (some x.mark, b.store.versionMarker x) key v ∨
      ∃ id, (some x.mark, b.store.versionMarker x) = (some key, some id) ∧ b'.store.Overlooks key id v := by
  subst hr
  rcases hx with hlt | ⟨k, r₀, r', hbefore, rfl, heq⟩
  · exact .inl (ahead_of_lt hu hrolled hv (.inr hlt))
  · cases heq
    obtain ⟨hhistories, hsound⟩ := hs.history_of_pair (ObjectStore.RowBefore.versions hbefore)
    have hmarker : b.store.versionMarker (.row key r₀) = some r₀.version.idOrNull := by
      rw [ObjectStore.versionMarker, hhistories]
      rfl
    rw [hmarker, Item.mark]
    rcases hs.resumes_or_overlooks hs' hsub hbefore hv with ⟨r', hr', heq⟩ | hoverlooks
    · refine .inl ⟨r', heq, ?_⟩
      have h₀ : r₀.version ∈ b.store.history key :=
        ObjectStore.version_mem (hbefore.subset List.mem_cons_self)
      have hin : (versionQuery stem delimiter cap (some key, some r₀.version.idOrNull)).inside :=
        ⟨hkey, hs.id_ne_empty h₀⟩
      exact (ObjectStore.mem_versionsFrom_inside hin).mpr (.inr ⟨r', hr', rfl, hu, hrolled⟩)
    · exact .inr ⟨_, rfl, hoverlooks⟩

def Returns (u : Visit (Option String × Option String) VersionPage) (v : Version) : Prop :=
  ∃ r ∈ u.page.rows, r.version = v

/-- `v` was not returned before a page whose version marker was gone and that overlooked it. -/
def Overlooked (name key : String) (v : Version)
    (visits : List (Visit (Option String × Option String) VersionPage)) : Prop :=
  ∃ before u after b id, visits = before ++ u :: after ∧ (∀ w ∈ before, ¬ Returns w v) ∧
    u.engine.buckets.get? name = some b ∧ u.place = (some key, some id) ∧ b.store.Overlooks key id v

theorem returns_of_mem {u : Visit (Option String × Option String) VersionPage} {r : VersionRow}
    (h : .row key r ∈ u.page.items) : Returns u r.version :=
  ⟨r, mem_value?_iff.mpr ⟨_, h⟩, rfl⟩

theorem DeletingReading.returned_or_overlooked (hcap : 1 ≤ cap)
    (h : DeletingReading name stem delimiter cap e place visits) (hkept : Kept name e)
    (hplace : Placed name e place) (hu : Under (stem.getD "") key)
    (hrolled : rolledUp? (stem.getD "") (delimiter.getD "") key = none)
    (hv : ∀ u ∈ visits, ∃ b, u.engine.buckets.get? name = some b ∧ v ∈ b.store.history key)
    (hahead : ∀ b, e.buckets.get? name = some b → Ahead stem delimiter cap b place key v) :
    (∃ u ∈ visits, Returns u v) ∨ Overlooked name key v visits := by
  induction h with
  | last answer final =>
      obtain ⟨b, hb⟩ := answered_bucket answer
      obtain ⟨r, rfl, hr⟩ := hahead b hb
      rw [← readVersions_final hb (hplace b hb) answer final] at hr
      exact .inl ⟨_, List.mem_cons_self, returns_of_mem hr⟩
  | @turn e place page next rs visits answer more allowed rest ih =>
      obtain ⟨⟨b, hb, hvb⟩, hlater⟩ := List.forall_mem_cons.mp hv
      obtain ⟨r, hrv, hr⟩ := hahead b hb
      by_cases hreturned : Returns ⟨e, place, page⟩ v
      · exact .inl ⟨_, List.mem_cons_self, hreturned⟩
      · rcases returned_or_left hcap hb (hplace b hb) answer more hr with hmem | ⟨x, rfl, hx⟩
        · exact absurd (hrv ▸ returns_of_mem hmem) hreturned
        · have hthins : Thins name e (e.run rs).2 := thins_run allowed
          have hkept' : Kept name (e.run rs).2 := hkept.run allowed
          obtain ⟨page', later, rfl⟩ := rest.head
          obtain ⟨b', hb', hv'⟩ := hlater _ List.mem_cons_self
          rcases ahead_or_overlooks (hkept.sound name b hb).store (hkept'.sound name b' hb').store
            (hthins.sublist hb hb' key) (hkept.key_ne_empty hb hvb) hu hrolled hv' hrv hx with
            hahead' | ⟨id, hid, hoverlooks⟩
          · have hrest := ih hkept' (hthins.placed hb x) hlater
              (fun c hc => Option.some.inj (hb'.symm.trans hc) ▸ hahead')
            rcases hrest with ⟨u, hu, hret⟩ | ⟨before, u, after, c, id, heq, hbefore, hfound⟩
            · exact .inl ⟨u, List.mem_cons_of_mem _ hu, hret⟩
            · refine .inr ⟨⟨e, place, page⟩ :: before, u, after, c, id, ?_, ?_, hfound⟩
              · rw [heq, List.cons_append]
              · exact List.forall_mem_cons.mpr ⟨hreturned, hbefore⟩
          · refine .inr ⟨[⟨e, place, page⟩], _, later, b', id, rfl, ?_, hb', hid, hoverlooks⟩
            simpa using hreturned

/-- Whether a listing has gone past `v` for good. -/
def Behind (b : Bucket) (place : Option String × Option String) (key : String) (v : Version) : Prop :=
  ∃ m, place.1 = some m ∧ (key < m ∨ m = key ∧ ∃ id, place.2 = some id ∧ b.store.Passed key id v)

theorem versionsFrom_of_mem_page (hb : e.buckets.get? name = some b) (hplace : PlaceOf b.store place)
    (answer : readVersions name stem delimiter cap e place = .ok page) {i : Item VersionRow}
    (hi : i ∈ page.items) : i ∈ b.store.versionsFrom (versionQuery stem delimiter cap place) := by
  have hpage := readVersions_page hb hplace answer
  rw [hpage] at hi
  exact List.mem_of_mem_take hi

theorem Behind.of_row (hs : b.store.Sound n) (hkey : key ≠ "") (h : Behind b place key v) {k : String}
    {r : VersionRow} (hr : .row k r ∈ b.store.versionsFrom (versionQuery stem delimiter cap place)) :
    key < k ∨ k = key ∧ [v, r.version].Sublist (b.store.history key) := by
  obtain ⟨m, hm, hbehind⟩ := h
  obtain ⟨_, _, hrows, hpast⟩ := ObjectStore.mem_versionsFrom_row.mp hr
  have hmarker : (versionQuery stem delimiter cap place).marker = m := by rw [versionQuery, hm]; rfl
  rw [hmarker] at hpast
  rcases hbehind with hlt | ⟨rfl, id, hid, hpassed⟩
  · rcases hpast with (rfl | hlt') | ⟨_, rfl⟩
    · exact absurd hlt (lt_asymm (empty_lt hkey))
    · exact .inl (hlt.trans hlt')
    · exact .inl hlt
  · rcases hpast with (hempty | hlt') | ⟨hin, rfl⟩
    · exact absurd hempty hkey
    · exact .inl hlt'
    · rw [VersionQuery.rowsOf, if_pos ⟨hin, hmarker.symm⟩] at hrows
      have hresume : (versionQuery stem delimiter cap place).versionIdMarker = id := by
        rw [versionQuery, hid]
        rfl
      rw [hresume] at hrows
      exact .inr ⟨rfl, hpassed.before_resumed hs hrows⟩

theorem Behind.not_returned (hkept : Kept name e) (hb : e.buckets.get? name = some b)
    (hplace : PlaceOf b.store place) (hkey : key ≠ "") (hv : v ∈ b.store.history key)
    (h : Behind b place key v) (answer : readVersions name stem delimiter cap e place = .ok page) :
    ¬ Returns ⟨e, place, page⟩ v := by
  rintro ⟨r, hr, rfl⟩
  obtain ⟨k, hi⟩ := mem_value?_iff.mp hr
  have hs := (hkept.sound name b hb).store
  have hfiled := (hkept.filed name b hb).2
  have hmem := versionsFrom_of_mem_page hb hplace answer hi
  have hrow := (ObjectStore.rowsOf_suffix _ _).subset (ObjectStore.mem_versionsFrom_row.mp hmem).2.2.1
  have hk : k = key := by
    rw [← hfiled k r.version (ObjectStore.version_mem hrow), hfiled key r.version hv]
  rcases h.of_row hs hkey hmem with hlt | ⟨_, hself⟩
  · exact absurd hk hlt.ne'
  · exact pair_sublist_asymm (hs.history_nodup key) hself hself

theorem Behind.kept (hcap : 1 ≤ cap) (hs : b.store.Sound n)
    (hsub : (b'.store.history key).Sublist (b.store.history key)) (hkey : key ≠ "")
    (hv : v ∈ b'.store.history key) (hnull : v.idOrNull = VersionId.null)
    (hb : e.buckets.get? name = some b) (hplace : PlaceOf b.store place) (h : Behind b place key v)
    (answer : readVersions name stem delimiter cap e place = .ok page) (more : resumeVersions page = some next) :
    Behind b' next key v := by
  obtain ⟨front, x, back, _, hitems, rfl, _⟩ := readVersions_turn hcap hb hplace answer more
  have hmem : x ∈ b.store.versionsFrom (versionQuery stem delimiter cap place) :=
    versionsFrom_of_mem_page hb hplace answer (by rw [hitems]; simp)
  refine ⟨x.mark, rfl, ?_⟩
  cases x with
  | commonPrefix cp =>
      obtain ⟨m, hm, hbehind⟩ := h
      have hlt := (ObjectStore.mem_versionsFrom_commonPrefix.mp hmem).2
      have hmarker : (versionQuery stem delimiter cap place).marker = m := by rw [versionQuery, hm]; rfl
      rw [hmarker] at hlt
      exact .inl (hbehind.elim (fun h => h.trans hlt) (fun h => h.1 ▸ hlt))
  | row k r =>
      rcases h.of_row hs hkey hmem with hlt | ⟨rfl, hbefore⟩
      · exact .inl hlt
      · refine .inr ⟨rfl, r.version.idOrNull, ?_, ?_⟩
        · rw [ObjectStore.versionMarker, (hs.history_of_pair hbefore).1]
          rfl
        · exact (hs.passed_of_before hnull hbefore).thin hsub hv

theorem DeletingReading.not_returned_of_behind (hcap : 1 ≤ cap)
    (h : DeletingReading name stem delimiter cap e place visits) (hkept : Kept name e)
    (hplace : Placed name e place) (hkey : key ≠ "") (hnull : v.idOrNull = VersionId.null)
    (hv : ∀ u ∈ visits, ∃ b, u.engine.buckets.get? name = some b ∧ v ∈ b.store.history key)
    (hbehind : ∀ b, e.buckets.get? name = some b → Behind b place key v) :
    ∀ u ∈ visits, ¬ Returns u v := by
  induction h with
  | last answer final =>
      obtain ⟨b, hb, hvb⟩ := hv _ List.mem_cons_self
      have hnot := (hbehind b hb).not_returned hkept hb (hplace b hb) hkey hvb answer
      simpa using hnot
  | @turn e place page next rs visits answer more allowed rest ih =>
      obtain ⟨⟨b, hb, hvb⟩, hlater⟩ := List.forall_mem_cons.mp hv
      have hthins : Thins name e (e.run rs).2 := thins_run allowed
      have hkept' : Kept name (e.run rs).2 := hkept.run allowed
      have hplace' : Placed name (e.run rs).2 next := by
        obtain ⟨_, x, _, _, _, rfl, _⟩ := readVersions_turn hcap hb (hplace b hb) answer more
        exact hthins.placed hb x
      obtain ⟨page', later, rfl⟩ := rest.head
      obtain ⟨b', hb', hv'⟩ := hlater _ List.mem_cons_self
      have hbehind' : Behind b' next key v := (hbehind b hb).kept hcap (hkept.sound name b hb).store
        (hthins.sublist hb hb' key) hkey hv' hnull hb (hplace b hb) answer more
      refine List.forall_mem_cons.mpr ⟨(hbehind b hb).not_returned hkept hb (hplace b hb) hkey hvb answer, ?_⟩
      exact ih hkept' hplace' hlater (fun c hc => Option.some.inj (hb'.symm.trans hc) ▸ hbehind')

theorem DeletingReading.kept_placed (hcap : 1 ≤ cap)
    (h : DeletingReading name stem delimiter cap e place visits) (hkept : Kept name e)
    (hplace : Placed name e place) : ∀ u ∈ visits, Kept name u.engine ∧ Placed name u.engine u.place := by
  induction h with
  | last answer final => simpa using ⟨hkept, hplace⟩
  | turn answer more allowed rest ih =>
      obtain ⟨b, hb⟩ := answered_bucket answer
      obtain ⟨_, x, _, _, _, rfl, _⟩ := readVersions_turn hcap hb (hplace b hb) answer more
      exact List.forall_mem_cons.mpr ⟨⟨hkept, hplace⟩, ih (hkept.run allowed) ((thins_run allowed).placed hb x)⟩

/-- While versions are removed between the pages, a version that stays is returned, or its key is
reported by a common prefix, unless it is null and overlooked: no older version stands in front of
it when a listing resumes behind a newer one that is gone. Then it is not returned at all. -/
theorem version_returned_iff_not_overlooked (he : ReachableUnwrapped e) (hkeys : e.NoEmptyKey name)
    (hcap : 1 ≤ cap) (h : DeletingReading name stem delimiter cap e (none, none) visits)
    (hu : Under (stem.getD "") key)
    (hv : ∀ u ∈ visits, ∃ b, u.engine.buckets.get? name = some b ∧ v ∈ b.store.history key) :
    (∀ cp, rolledUp? (stem.getD "") (delimiter.getD "") key = some cp →
      ∃ u ∈ visits, cp ∈ u.page.commonPrefixes) ∧
    (rolledUp? (stem.getD "") (delimiter.getD "") key = none →
      ((∃ u ∈ visits, Returns u v) ↔ ¬ Overlooked name key v visits)) := by
  have hkept : Kept name e := ⟨he.sound, he.reachable.filed, hkeys⟩
  have hplace : Placed name e (none, none) := fun _ _ => .inr rfl
  constructor
  · intro cp hrolled
    have hcp : ∀ u ∈ visits, ∀ b, u.engine.buckets.get? name = some b →
        ∃ f ∈ b.store.histories, rolledUp? (stem.getD "") (delimiter.getD "") f.1 = some cp := by
      intro u hu b hb
      obtain ⟨c, hc, hvc⟩ := hv u hu
      obtain rfl : b = c := Option.some.inj (hb.symm.trans hc)
      exact ⟨_, ObjectStore.mem_histories (List.ne_nil_of_mem hvc), hrolled⟩
    obtain ⟨u, hu, hmem⟩ :=
      DeletingReading.commonPrefix_returned hcap h hplace hcp (empty_lt (rolledUp?_ne_empty hrolled))
    exact ⟨u, hu, List.mem_filterMap.mpr ⟨_, hmem, rfl⟩⟩
  · intro hrolled
    constructor
    · rintro ⟨w, hw, hreturned⟩ ⟨before, u, after, b, id, rfl, hbefore, hb, hid, hoverlooks⟩
      have hlater : w ∈ u :: after :=
        (List.mem_append.mp hw).resolve_left (fun hw => hbefore w hw hreturned)
      have huv : ∀ w ∈ u :: after, w ∈ before ++ u :: after := fun w hw => List.mem_append_right _ hw
      obtain ⟨hkept', hplace'⟩ := DeletingReading.kept_placed hcap h hkept hplace u (huv u List.mem_cons_self)
      obtain ⟨c, hc, hvc⟩ := hv u (huv u List.mem_cons_self)
      have hkey : key ≠ "" := hkept'.key_ne_empty hc hvc
      refine DeletingReading.not_returned_of_behind hcap h.suffix hkept' hplace' hkey hoverlooks.1
        (fun w hw => hv w (huv w hw)) (fun c hc => ?_) w hlater hreturned
      obtain rfl : b = c := Option.some.inj (hb.symm.trans hc)
      refine ⟨key, by rw [hid], .inr ⟨rfl, id, by rw [hid], ?_⟩⟩
      exact ObjectStore.Overlooks.passed (hkept'.sound name b hb).store hoverlooks
    · intro hnot
      refine (DeletingReading.returned_or_overlooked hcap h hkept hplace hu hrolled hv ?_).resolve_right hnot
      intro b hb
      obtain ⟨page, later, rfl⟩ := h.head
      obtain ⟨c, hc, hvc⟩ := hv _ List.mem_cons_self
      obtain rfl : b = c := Option.some.inj (hb.symm.trans hc)
      exact ahead_of_lt hu hrolled hvc (.inl rfl)

theorem DeletingReading.two_pages {removal : Request} {q : VersionPage} (hr : RemovesVersion removal)
    (hp : readVersions name stem delimiter cap e place = .ok page) (hmore : resumeVersions page = some next)
    (hq : readVersions name stem delimiter cap (e.run [removal]).2 next = .ok q)
    (hfinal : resumeVersions q = none)
    (hv : ∃ b, (e.run [removal]).2.buckets.get? name = some b ∧ v ∈ b.store.history key) :
    ∃ visits, visits = [⟨e, place, page⟩, ⟨(e.run [removal]).2, next, q⟩] ∧
      DeletingReading name stem delimiter cap e place visits ∧
      ∀ u ∈ visits, ∃ b, u.engine.buckets.get? name = some b ∧ v ∈ b.store.history key := by
  have hallowed : ∀ r ∈ [removal], RemovesVersion r := by
    intro r hmem
    rw [List.mem_singleton.mp hmem]
    exact hr
  obtain ⟨b', hb', hv'⟩ := hv
  obtain ⟨b, hb, _, hsub⟩ := thins_run hallowed b' hb'
  refine ⟨_, rfl, .turn hp hmore hallowed (.last hq hfinal), ?_⟩
  simp only [List.forall_mem_cons, List.not_mem_nil, false_imp_iff, implies_true, and_true]
  exact ⟨⟨b, hb, (hsub key).subset hv'⟩, ⟨b', hb', hv'⟩⟩

theorem older_version_returned :
    ∃ visits v, DeletingReading "b" none (some "/") 2 twoVersions (none, none) visits ∧
      v.idOrNull = VersionId.ofCounter 2 ∧ ∃ u ∈ visits, Returns u v := by
  obtain ⟨p, hp, hmore⟩ : ∃ page, readVersions "b" none (some "/") 2 twoVersions (none, none) = .ok page ∧
      resumeVersions page = some (some "k", some (VersionId.ofCounter 3)) := ⟨_, rfl, by decide⟩
  obtain ⟨q, hq, hfinal⟩ : ∃ page,
      readVersions "b" none (some "/") 2 (twoVersions.run [.deleteVersion "b" "k" (VersionId.ofCounter 3)]).2
        (some "k", some (VersionId.ofCounter 3)) = .ok page ∧ resumeVersions page = none := ⟨_, rfl, by decide⟩
  obtain ⟨b, hb, v, hv, hid⟩ : ∃ b,
      (twoVersions.run [.deleteVersion "b" "k" (VersionId.ofCounter 3)]).2.buckets.get? "b" = some b ∧
      ∃ v ∈ b.store.history "k", v.idOrNull = VersionId.ofCounter 2 := ⟨_, rfl, by decide⟩
  obtain ⟨visits, _, hreading, hstays⟩ :=
    DeletingReading.two_pages ⟨_, _, _, rfl⟩ hp hmore hq hfinal ⟨b, hb, hv⟩
  have hunder : Under ((none : Option String).getD "") "k" := by decide
  obtain ⟨_, hreturned⟩ := version_returned_iff_not_overlooked twoVersions_reachable (by decide)
    (by decide) hreading hunder hstays
  refine ⟨visits, v, hreading, hid, (hreturned (by decide)).mpr ?_⟩
  rintro ⟨_, _, _, _, _, _, _, _, _, hnull, _⟩
  rw [hid] at hnull
  exact VersionId.ofCounter_ne_null 2 hnull

def nullBehind : Engine :=
  ((fresh {} 1).run [.createBucket "b", .putObject "b" "k" [] {}, .putVersioning "b" "Enabled",
    .putObject "b" "k" [] {}]).2

theorem nullBehind_reachable : ReachableUnwrapped nullBehind := by
  refine .step (.putObject "b" "k" [] {}) (.step (.putVersioning "b" "Enabled")
    (.step (.putObject "b" "k" [] {}) (.step (.createBucket "b") (.fresh {} 1) ?_) ?_) ?_) ?_
  all_goals decide

/-- The null version is there at both pages, and neither returns it. -/
theorem null_version_overlooked :
    ∃ (visits : List (Visit (Option String × Option String) VersionPage)) (v : Version),
      ReachableUnwrapped nullBehind ∧ nullBehind.NoEmptyKey "b" ∧
      DeletingReading "b" none none 1 nullBehind (none, none) visits ∧
      Under "" "k" ∧ rolledUp? "" "" "k" = none ∧
      (∀ u ∈ visits, ∃ b, u.engine.buckets.get? "b" = some b ∧ v ∈ b.store.history "k") ∧
      ∀ u ∈ visits, ¬ Returns u v := by
  obtain ⟨p, hp, hmore, hfirst⟩ : ∃ page, readVersions "b" none none 1 nullBehind (none, none) = .ok page ∧
      resumeVersions page = some (some "k", some (VersionId.ofCounter 1)) ∧
      ∀ r ∈ page.rows, r.version.idOrNull ≠ VersionId.null := ⟨_, rfl, by decide, by decide⟩
  obtain ⟨q, hq, hfinal, hsecond⟩ : ∃ page,
      readVersions "b" none none 1 (nullBehind.run [.deleteVersion "b" "k" (VersionId.ofCounter 1)]).2
        (some "k", some (VersionId.ofCounter 1)) = .ok page ∧
      resumeVersions page = none ∧ ∀ r ∈ page.rows, r.version.idOrNull ≠ VersionId.null :=
    ⟨_, rfl, by decide, by decide⟩
  obtain ⟨b, hb, v, hv, hnull⟩ : ∃ b,
      (nullBehind.run [.deleteVersion "b" "k" (VersionId.ofCounter 1)]).2.buckets.get? "b" = some b ∧
      ∃ v ∈ b.store.history "k", v.idOrNull = VersionId.null := ⟨_, rfl, by decide⟩
  obtain ⟨visits, rfl, hreading, hstays⟩ :=
    DeletingReading.two_pages ⟨_, _, _, rfl⟩ hp hmore hq hfinal ⟨b, hb, hv⟩
  refine ⟨_, v, nullBehind_reachable, by decide, hreading, by decide, by decide, hstays, ?_⟩
  simp only [List.forall_mem_cons, List.not_mem_nil, false_imp_iff, implies_true, and_true]
  constructor
  · rintro ⟨r, hr, rfl⟩
    exact hfirst r hr hnull
  · rintro ⟨r, hr, rfl⟩
    exact hsecond r hr hnull

end BucketStore.Engine
