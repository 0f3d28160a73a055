import BucketStore.Proofs.Engine.DeletingReading
import BucketStore.Proofs.Engine.Origins
import Mathlib.Data.List.Chain

namespace BucketStore

open Listing

theorem ObjectStore.Sound.resumed_behind {s : ObjectStore} {n : UInt64} {key id : String} {r : VersionRow}
    (hs : s.Sound n) (hid : id ≠ VersionId.null) (hr : r ∈ resumeAfter id (historyRows (s.history key))) :
    (∃ r₀ ∈ historyRows (s.history key), r₀.version.idOrNull = id ∧ s.RowBefore key r₀ r) ∨
      ∃ r₁ ∈ historyRows (s.history key), VersionId.olderThan r₁.version.idOrNull id = true ∧
        (r = r₁ ∨ s.RowBefore key r₁ r) := by
  by_cases hgone : ∀ a ∈ historyRows (s.history key), a.version.idOrNull ≠ id
  · rw [resumeAfter_gone hgone, if_neg hid] at hr
    have hsuffix := List.dropWhile_suffix (fun r => !VersionId.olderThan r.version.idOrNull id)
      (l := historyRows (s.history key))
    have hfirst := List.head?_dropWhile_not (fun r => !VersionId.olderThan r.version.idOrNull id)
      (historyRows (s.history key))
    cases hdrop : (historyRows (s.history key)).dropWhile (fun r => !VersionId.olderThan r.version.idOrNull id) with
    | nil =>
        rw [hdrop] at hr
        cases hr
    | cons r₁ rest =>
        rw [hdrop] at hr hsuffix hfirst
        refine .inr ⟨r₁, hsuffix.subset List.mem_cons_self, by simpa using hfirst, ?_⟩
        rcases List.mem_cons.mp hr with rfl | hr
        · exact .inl rfl
        · exact .inr (.trans (.cons_cons r₁ (List.singleton_sublist.mpr hr)) hsuffix.sublist)
  · push Not at hgone
    obtain ⟨r₀, h₀, rfl⟩ := hgone
    exact .inl ⟨r₀, h₀, rfl, (hs.mem_resumeAfter h₀).mp hr⟩

namespace Engine

structure PageRead where
  moment : Moment
  place : Option String × Option String
  page : VersionPage

/-- A client lists the versions of a bucket, page by page, and follows both markers of each page to the
next. Anything may be requested in between. -/
structure FollowsMarkers (name : String) (stem delimiter : Option String) (cap : Nat) (run : List Moment)
    (reads : List PageRead) : Prop where
  within : (reads.map PageRead.moment).Sublist run
  asked : ∀ p ∈ reads, p.moment.request = .listVersions name stem delimiter p.place.1 p.place.2 (some cap)
  answered : ∀ p ∈ reads, p.moment.outcome = .ok (.versions p.page)
  onward : reads.IsChain (fun p p' => resumeVersions p.page = some p'.place)

/-- Whether a version of that key, written at that time, is still to come at a place: it is of a later key,
or was written before the version that the markers name. -/
def ToCome (run : List Moment) (place : Option String × Option String) (key : String) (time : Nat) : Prop :=
  place.1.getD "" = "" ∨ place.1.getD "" < key ∨
    place.1.getD "" = key ∧ ∃ id, place.2 = some id ∧ ∀ t, Drawn run id t → time < t

structure Beyond (run : List Moment) (place next : Option String × Option String) : Prop where
  marker : place.1.getD "" ≤ next.1.getD ""
  toCome : ∀ key time, ToCome run next key time → ToCome run place key time

variable {settings : Settings} {first : UInt64} {rs : List Request} {name key : String}
  {stem delimiter : Option String} {cap : Nat} {m : Moment} {b : Bucket} {w : Write} {r : VersionRow}
  {place next : Option String × Option String} {page : VersionPage} {e : Engine}

theorem Beyond.refl (run : List Moment) (place : Option String × Option String) : Beyond run place place :=
  ⟨le_rfl, fun _ _ h => h⟩

theorem Beyond.trans {run : List Moment} {last : Option String × Option String} (h : Beyond run place next)
    (h' : Beyond run next last) : Beyond run place last :=
  ⟨h.marker.trans h'.marker, fun key time hlast => h.toCome key time (h'.toCome key time hlast)⟩

theorem readVersions_placed (hb : e.buckets.get? name = some b)
    (answer : readVersions name stem delimiter cap e place = .ok page) : ∃ id, (id = none ∨ id = place.2) ∧
      PlaceOf b.store (place.1, id) ∧ readVersions name stem delimiter cap e (place.1, id) = .ok page := by
  cases hs : b.store with
  | versioned s => exact ⟨place.2, .inr rfl, .inl rfl, answer⟩
  | plain s =>
      refine ⟨none, .inl rfl, .inr rfl, ?_⟩
      obtain ⟨b', hb', rfl⟩ := readVersions_eq_ok.mp answer
      obtain rfl : b = b' := Option.some.inj (hb.symm.trans hb')
      refine readVersions_eq_ok.mpr ⟨b, hb, ?_⟩
      rw [hs]
      rfl

theorem mem_versionItems_of_from {s : ObjectStore} {q : VersionQuery} {i : Item VersionRow}
    (hi : i ∈ s.versionsFrom q) : i ∈ s.versionItems q.stem q.delimiter := by
  cases i with
  | row key r =>
      obtain ⟨hu, hr, hrow, _⟩ := ObjectStore.mem_versionsFrom_row.mp hi
      exact ObjectStore.mem_versionItems_row.mpr ⟨hu, hr, (ObjectStore.rowsOf_suffix key _).subset hrow⟩
  | commonPrefix cp =>
      exact ObjectStore.mem_versionItems_commonPrefix.mpr (ObjectStore.mem_versionsFrom_commonPrefix.mp hi).1

theorem versionMarker_eq_some {s : ObjectStore} {x : Item VersionRow} {id : String}
    (h : s.versionMarker x = some id) : ∃ key r, x = .row key r ∧ r.version.idOrNull = id := by
  rw [ObjectStore.versionMarker, Option.ite_none_right_eq_some, Option.map_eq_some_iff] at h
  obtain ⟨_, r, hr, hid⟩ := h
  cases x with
  | row key r' => cases hr; exact ⟨key, r, rfl, hid⟩
  | commonPrefix cp => cases hr

theorem row_of_returned (hb : e.buckets.get? name = some b)
    (answer : readVersions name stem delimiter cap e place = .ok page) (hr : .row key r ∈ page.items) :
    r ∈ historyRows (b.store.history key) := by
  obtain ⟨id, _, hplaced, hread⟩ := readVersions_placed hb answer
  exact (ObjectStore.rowsOf_suffix key _).subset
    (ObjectStore.mem_versionsFrom_row.mp (versionsFrom_of_mem_page hb hplaced hread hr)).2.2.1

theorem exists_last (hcap : 1 ≤ cap) (hb : e.buckets.get? name = some b)
    (answer : readVersions name stem delimiter cap e place = .ok page) (hempty : b.store.history "" = [])
    (more : resumeVersions page = some next) :
    ∃ x ∈ page.items, x.mark ≠ "" ∧ next = (some x.mark, b.store.versionMarker x) ∧
      ∀ i ∈ page.items, i = x ∨ Item.Precedes b.store.RowBefore i x := by
  obtain ⟨id, _, hplaced, hread⟩ := readVersions_placed hb answer
  obtain ⟨front, x, back, hsplit, hitems, hnext, _⟩ := readVersions_turn hcap hb hplaced hread more
  have hpairwise := ObjectStore.versionsFrom_pairwise (versionQuery stem delimiter cap (place.1, id)) b.store
  have hx : x ∈ page.items := by
    rw [hitems]
    exact List.mem_append_right _ List.mem_cons_self
  have hfrom := versionsFrom_of_mem_page hb hplaced hread hx
  refine ⟨x, hx, version_mark_ne_empty hempty (mem_versionItems_of_from hfrom), hnext, fun i hi => ?_⟩
  rw [hitems, List.mem_append, List.mem_singleton] at hi
  rw [hsplit] at hpairwise
  exact hi.symm.imp_right (fun hi => (List.pairwise_append.mp hpairwise).2.2 i hi x List.mem_cons_self)

theorem mark_le_next (hcap : 1 ≤ cap) (hb : e.buckets.get? name = some b)
    (answer : readVersions name stem delimiter cap e place = .ok page) (hempty : b.store.history "" = [])
    (more : resumeVersions page = some next) {i : Item VersionRow} (hi : i ∈ page.items) :
    i.mark ≤ next.1.getD "" := by
  obtain ⟨x, _, _, rfl, hlast⟩ := exists_last hcap hb answer hempty more
  rcases hlast i hi with rfl | hlt | ⟨_, _, _, _, rfl, rfl⟩
  · exact le_rfl
  · exact hlt.le
  · exact le_rfl

theorem commonPrefixes_ascending (hb : e.buckets.get? name = some b)
    (answer : readVersions name stem delimiter cap e place = .ok page) :
    page.commonPrefixes.Pairwise (· < ·) := by
  obtain ⟨id, _, hplaced, hread⟩ := readVersions_placed hb answer
  rw [readVersions_page hb hplaced hread]
  exact commonPrefix?_ascending ((ObjectStore.versionsFrom_pairwise _ _).sublist (List.take_sublist _ _))

theorem marker_le_of_returned (hb : e.buckets.get? name = some b)
    (answer : readVersions name stem delimiter cap e place = .ok page) (hr : .row key r ∈ page.items) :
    place.1.getD "" ≤ key := by
  obtain ⟨id, _, hplaced, hread⟩ := readVersions_placed hb answer
  obtain ⟨_, _, _, (hnone | hlt) | ⟨_, hmarker⟩⟩ :=
    ObjectStore.mem_versionsFrom_row.mp (versionsFrom_of_mem_page hb hplaced hread hr)
  · exact hnone.trans_le (under_empty_stem key).le
  · exact hlt.le
  · exact hmarker.ge

theorem marker_lt_of_returned (hb : e.buckets.get? name = some b)
    (answer : readVersions name stem delimiter cap e place = .ok page) {cp : String}
    (hcp : .commonPrefix cp ∈ page.items) : place.1.getD "" < cp := by
  obtain ⟨id, _, hplaced, hread⟩ := readVersions_placed hb answer
  exact (ObjectStore.mem_versionsFrom_commonPrefix.mp (versionsFrom_of_mem_page hb hplaced hread hcp)).2

section Page

variable (hrs : (fresh settings first).Unwrapped rs) (hm : m ∈ (fresh settings first).moments rs)
  (hb : m.engine.buckets.get? name = some b) (answer : readVersions name stem delimiter cap m.engine place = .ok page)

include hrs hm hb

theorem filed_of_mem {v : Version} (hv : v ∈ b.store.history key) : v.key = key :=
  ((mem_moments_reachable (.fresh settings first) hrs hm).1.reachable.filed name b hb).2 key v hv

theorem exists_row_origin (hr : r ∈ historyRows (b.store.history key)) :
    r.version.key = key ∧ ∃ w, Origin name (m.past ((fresh settings first).moments rs)) r.version w := by
  have hv : r.version ∈ b.store.history key := ObjectStore.version_mem hr
  have hkey : r.version.key = key := filed_of_mem hrs hm hb hv
  refine ⟨hkey, exists_origin hrs hm ?_⟩
  rwa [hkey, history_of_bucket hb]

theorem row_origin_lt {r₀ : VersionRow} {w₀ : Write} (hbefore : b.store.RowBefore key r₀ r)
    (h₀ : Origin name (m.past ((fresh settings first).moments rs)) r₀.version w₀)
    (h : Origin name (m.past ((fresh settings first).moments rs)) r.version w) : w.time < w₀.time := by
  have hpair := hbefore.versions
  refine h₀.lt_of_before hrs hm h (filed_of_mem hrs hm hb (hpair.subset List.mem_cons_self))
    (filed_of_mem hrs hm hb (hpair.subset (List.mem_cons_of_mem _ List.mem_cons_self))) ?_
  rwa [history_of_bucket hb]

theorem resumed_before {id : String} (hid : id ≠ VersionId.null)
    (hr : r ∈ resumeAfter id (historyRows (b.store.history key)))
    (h : Origin name (m.past ((fresh settings first).moments rs)) r.version w) {t : Nat}
    (hdrawn : Drawn ((fresh settings first).moments rs) id t) : w.time < t := by
  have hs := (sound_of_mem hrs hm name b hb).store
  rcases hs.resumed_behind hid hr with ⟨r₀, h₀, rfl, hbefore⟩ | ⟨r₁, h₁, holder, heq⟩
  · obtain ⟨_, w₀, horigin⟩ := exists_row_origin hrs hm hb h₀
    rw [hdrawn.unique hrs (horigin.drawn hid)]
    exact row_origin_lt hrs hm hb hbefore horigin h
  · simp only [VersionId.olderThan, Bool.and_eq_true, decide_eq_true_eq] at holder
    have hne : r₁.version.idOrNull ≠ VersionId.null := by simpa using holder.1.1
    rcases heq with rfl | hbefore
    · exact (h.drawn hne).lt hrs hdrawn holder.2
    · obtain ⟨_, w₁, horigin⟩ := exists_row_origin hrs hm hb h₁
      exact (row_origin_lt hrs hm hb hbefore horigin h).trans ((horigin.drawn hne).lt hrs hdrawn holder.2)

include answer

theorem row_of_mem_rows (hr : r ∈ page.rows) : .row r.version.key r ∈ page.items := by
  obtain ⟨key, hi⟩ := mem_value?_iff.mp hr
  rwa [(exists_row_origin hrs hm hb (row_of_returned hb answer hi)).1]

theorem toCome_of_returned (hnull : place.2 ≠ some VersionId.null) (hr : .row key r ∈ page.items)
    (h : Origin name (m.past ((fresh settings first).moments rs)) r.version w) :
    ToCome ((fresh settings first).moments rs) place key w.time := by
  obtain ⟨id, hid, hplaced, hread⟩ := readVersions_placed hb answer
  obtain ⟨_, _, hrow, (hnone | hlt) | ⟨hin, hmarker⟩⟩ :=
    ObjectStore.mem_versionsFrom_row.mp (versionsFrom_of_mem_page hb hplaced hread hr)
  · exact .inl hnone
  · exact .inr (.inl hlt)
  · rw [VersionQuery.rowsOf, if_pos ⟨hin, hmarker⟩] at hrow
    cases id with
    | none => exact absurd rfl hin.2
    | some id =>
        have hplace : place.2 = some id := (hid.resolve_left (Option.some_ne_none id)).symm
        have hne : id ≠ VersionId.null := fun heq => hnull (heq ▸ hplace)
        exact .inr (.inr ⟨hmarker.symm, id, hplace, fun t ht => resumed_before hrs hm hb hne hrow h ht⟩)

theorem not_toCome_of_returned (hcap : 1 ≤ cap) (hempty : b.store.history "" = [])
    (more : resumeVersions page = some next) (hnull : next.2 ≠ some VersionId.null) (hr : .row key r ∈ page.items)
    (h : Origin name (m.past ((fresh settings first).moments rs)) r.version w) :
    ¬ ToCome ((fresh settings first).moments rs) next key w.time := by
  have hle := mark_le_next hcap hb answer hempty more hr
  obtain ⟨x, hx, hne, rfl, hlast⟩ := exists_last hcap hb answer hempty more
  rintro (hnone | hlt | ⟨heq, id, hid, hearlier⟩)
  · exact hne hnone
  · exact not_lt_of_ge hle hlt
  · obtain ⟨k, c, rfl, rfl⟩ := versionMarker_eq_some hid
    have hgenerated : c.version.idOrNull ≠ VersionId.null := fun hc => hnull (hid.trans (congrArg some hc))
    rcases hlast _ hr with hself | hlt | ⟨_, _, _, hbefore, hself, hlater⟩
    · cases hself
      exact lt_irrefl _ (hearlier w.time (h.drawn hgenerated))
    · exact hlt.ne heq.symm
    · cases hself
      cases hlater
      obtain ⟨_, w', horigin⟩ := exists_row_origin hrs hm hb (hbefore.subset (List.mem_cons_of_mem _ List.mem_cons_self))
      exact lt_asymm (hearlier w'.time (horigin.drawn hgenerated)) (row_origin_lt hrs hm hb hbefore h horigin)

theorem beyond_of_resume (hcap : 1 ≤ cap) (hempty : b.store.history "" = [])
    (hnull : place.2 ≠ some VersionId.null) (more : resumeVersions page = some next)
    (hnull' : next.2 ≠ some VersionId.null) : Beyond ((fresh settings first).moments rs) place next := by
  obtain ⟨x, hx, hne, rfl, _⟩ := exists_last hcap hb answer hempty more
  cases x with
  | commonPrefix cp =>
      have hlt := marker_lt_of_returned hb answer hx
      refine ⟨hlt.le, fun key time htoCome => ?_⟩
      rcases htoCome with hnone | hlt' | ⟨_, _, hid, _⟩
      · exact absurd hnone hne
      · exact .inr (.inl (hlt.trans hlt'))
      · obtain ⟨_, _, hrow, _⟩ := versionMarker_eq_some hid
        cases hrow
  | row k c =>
      obtain ⟨_, w, horigin⟩ := exists_row_origin hrs hm hb (row_of_returned hb answer hx)
      have hhere := toCome_of_returned hrs hm hb answer hnull hx horigin
      have hle := marker_le_of_returned hb answer hx
      refine ⟨hle, fun key time htoCome => ?_⟩
      rcases htoCome with hnone | hlt | ⟨heq, _, hlast, hearlier⟩
      · exact absurd hnone hne
      · exact .inr (.inl (hle.trans_lt hlt))
      · obtain ⟨_, _, hrow, rfl⟩ := versionMarker_eq_some hlast
        cases hrow
        have hgenerated : c.version.idOrNull ≠ VersionId.null := fun hc => hnull' (hlast.trans (congrArg some hc))
        rcases hhere with hnone | hlt | ⟨hmarker, id, hid, hbefore⟩
        · exact .inl hnone
        · exact .inr (.inl (hlt.trans_eq heq))
        · exact .inr (.inr ⟨hmarker.trans heq, id, hid,
            fun t ht => (hearlier w.time (horigin.drawn hgenerated)).trans (hbefore t ht)⟩)

end Page

section Chain

variable {run : List Moment} {reads : List PageRead}

theorem FollowsMarkers.read (h : FollowsMarkers name stem delimiter cap run reads) {p : PageRead} (hp : p ∈ reads) :
    p.moment ∈ run ∧ readVersions name stem delimiter cap p.moment.engine p.place = .ok p.page := by
  refine ⟨h.within.subset (List.mem_map_of_mem hp), ?_⟩
  have houtcome := h.answered p hp
  rw [Moment.outcome, h.asked p hp, step, Engine.answer] at houtcome
  rw [readVersions]
  cases hlist : p.moment.engine.listVersions name stem delimiter p.place.1 p.place.2 (some cap) with
  | error cause =>
      rw [hlist] at houtcome
      cases houtcome
  | ok page =>
      rw [hlist] at houtcome
      cases houtcome
      rfl

theorem beyond_of_onward (honward : reads.IsChain (fun p p' => resumeVersions p.page = some p'.place))
    (hnull : ∀ p ∈ reads.tail, p.place.2 ≠ some VersionId.null)
    (hstep : ∀ p ∈ reads.tail, ∀ next, resumeVersions p.page = some next → next.2 ≠ some VersionId.null →
      Beyond run p.place next) :
    reads.Pairwise (fun p p' => p'.place.2 ≠ some VersionId.null ∧ ∃ next, resumeVersions p.page = some next ∧
      next.2 ≠ some VersionId.null ∧ Beyond run next p'.place) := by
  induction reads with
  | nil => exact .nil
  | cons p rest ih =>
      have hrest := ih honward.tail (fun p hp => hnull p (List.mem_of_mem_tail hp))
        (fun p hp => hstep p (List.mem_of_mem_tail hp))
      refine .cons (fun p'' hp'' => ⟨hnull p'' hp'', ?_⟩) hrest
      cases rest with
      | nil => cases hp''
      | cons p' rest =>
          have hp' : p' ∈ (p :: p' :: rest).tail := List.mem_cons_self
          refine ⟨p'.place, (List.isChain_cons_cons.mp honward).1, hnull p' hp', ?_⟩
          rcases List.mem_cons.mp hp'' with rfl | hp''
          · exact .refl _ _
          · obtain ⟨_, next, hmore, hgenerated, hbeyond⟩ := (List.pairwise_cons.mp hrest).1 p'' hp''
            exact (hstep p' hp' next hmore hgenerated).trans hbeyond

end Chain

/-- Following both markers of a listing of versions, no write is returned by two pages and no common prefix
twice, and no page goes back before its key marker, as long as no marker is a null version. Whatever
happens to the bucket in between, and to the versions that the markers name, makes no difference. -/
theorem versions_never_repeated {reads : List PageRead} (hrs : (fresh settings first).Unwrapped rs)
    (hcap : 1 ≤ cap) (h : FollowsMarkers name stem delimiter cap ((fresh settings first).moments rs) reads)
    (hempty : ∀ p ∈ reads, p.moment.engine.NoEmptyKey name)
    (hnull : ∀ p ∈ reads.tail, p.place.2 ≠ some VersionId.null) :
    (∀ p ∈ reads, ∀ r ∈ p.page.rows, p.place.1.getD "" ≤ r.version.key ∧
      ∃ w, Origin name (p.moment.past ((fresh settings first).moments rs)) r.version w) ∧
    reads.Pairwise (fun p p' => ∀ r ∈ p.page.rows, ∀ r' ∈ p'.page.rows, ∀ w w',
      Origin name (p.moment.past ((fresh settings first).moments rs)) r.version w →
      Origin name (p'.moment.past ((fresh settings first).moments rs)) r'.version w' → w.time ≠ w'.time) ∧
    (reads.flatMap (fun p => p.page.commonPrefixes)).Pairwise (· < ·) := by
  have hbucket : ∀ p ∈ reads, ∃ b, p.moment.engine.buckets.get? name = some b ∧ b.store.history "" = [] := by
    intro p hp
    obtain ⟨b, hb, _⟩ := readVersions_eq_ok.mp (h.read hp).2
    exact ⟨b, hb, hempty p hp b hb⟩
  have hbeyond := beyond_of_onward h.onward hnull (fun p hp next hmore hgenerated => by
    obtain ⟨hm, answer⟩ := h.read (List.mem_of_mem_tail hp)
    obtain ⟨b, hb, hbempty⟩ := hbucket p (List.mem_of_mem_tail hp)
    exact beyond_of_resume hrs hm hb answer hcap hbempty (hnull p hp) hmore hgenerated)
  refine ⟨fun p hp r hr => ?_, ?_, ?_⟩
  · obtain ⟨hm, answer⟩ := h.read hp
    obtain ⟨b, hb, _⟩ := hbucket p hp
    have hrow := row_of_mem_rows hrs hm hb answer hr
    obtain ⟨_, w, horigin⟩ := exists_row_origin hrs hm hb (row_of_returned hb answer hrow)
    exact ⟨marker_le_of_returned hb answer hrow, w, horigin⟩
  · refine hbeyond.imp_of_mem (fun {p p'} hp hp' => ?_)
    rintro ⟨hnull', next, hmore, hgenerated, hbeyond⟩ r hr r' hr' w w' horigin horigin' htime
    obtain ⟨hm, answer⟩ := h.read hp
    obtain ⟨hm', answer'⟩ := h.read hp'
    obtain ⟨b, hb, hbempty⟩ := hbucket p hp
    obtain ⟨b', hb', _⟩ := hbucket p' hp'
    have htoCome := hbeyond.toCome _ _ (toCome_of_returned hrs hm' hb' answer' hnull'
      (row_of_mem_rows hrs hm' hb' answer' hr') horigin')
    rw [← horigin.key_eq horigin' htime, ← htime] at htoCome
    exact not_toCome_of_returned hrs hm hb answer hcap hbempty hmore hgenerated
      (row_of_mem_rows hrs hm hb answer hr) horigin htoCome
  · refine List.pairwise_flatMap.mpr ⟨fun p hp => ?_, hbeyond.imp_of_mem (fun {p p'} hp hp' => ?_)⟩
    · obtain ⟨b, hb, _⟩ := hbucket p hp
      exact commonPrefixes_ascending hb (h.read hp).2
    · rintro ⟨_, next, hmore, _, hbeyond⟩ cp hcp cp' hcp'
      obtain ⟨b, hb, hbempty⟩ := hbucket p hp
      obtain ⟨b', hb', _⟩ := hbucket p' hp'
      calc cp
          ≤ next.1.getD "" := mark_le_next hcap hb (h.read hp).2 hbempty hmore (mem_commonPrefix?_iff.mp hcp)
        _ ≤ p'.place.1.getD "" := hbeyond.marker
        _ < cp' := marker_lt_of_returned hb' (h.read hp').2 (mem_commonPrefix?_iff.mp hcp')

def markerDropped : List Request :=
  [.createBucket "b", .putVersioning "b" "Enabled", .putObject "b" "k" [1] {}, .putObject "b" "k" [2] {},
    .listVersions "b" none none none none (some 1), .deleteVersion "b" "k" (VersionId.ofCounter 2),
    .putObject "b" "k" [3] {}, .listVersions "b" none none (some "k") (some (VersionId.ofCounter 2)) (some 1)]

def firstListing : Moment :=
  ⟨4, ((fresh {} 1).run (markerDropped.take 4)).2, .listVersions "b" none none none none (some 1)⟩

def secondListing : Moment :=
  ⟨7, ((fresh {} 1).run (markerDropped.take 7)).2,
    .listVersions "b" none none (some "k") (some (VersionId.ofCounter 2)) (some 1)⟩

theorem markerDropped_not_repeated : ∃ reads,
    FollowsMarkers "b" none none 1 ((fresh {} 1).moments markerDropped) reads ∧
    reads.map (fun p => p.page.rows.map (·.version.idOrNull)) = [[VersionId.ofCounter 2], [VersionId.ofCounter 1]] ∧
    reads.Pairwise (fun p p' => ∀ r ∈ p.page.rows, ∀ r' ∈ p'.page.rows, ∀ w w',
      Origin "b" (p.moment.past ((fresh {} 1).moments markerDropped)) r.version w →
      Origin "b" (p'.moment.past ((fresh {} 1).moments markerDropped)) r'.version w' → w.time ≠ w'.time) := by
  obtain ⟨page, hpage, hmore, hrows⟩ : ∃ page, firstListing.outcome = .ok (.versions page) ∧
    resumeVersions page = some (some "k", some (VersionId.ofCounter 2)) ∧
    page.rows.map (·.version.idOrNull) = [VersionId.ofCounter 2] := ⟨_, rfl, by decide, by decide⟩
  obtain ⟨page', hpage', hrows'⟩ : ∃ page', secondListing.outcome = .ok (.versions page') ∧
    page'.rows.map (·.version.idOrNull) = [VersionId.ofCounter 1] := ⟨_, rfl, by decide⟩
  have hwithin : [firstListing, secondListing].Sublist ((fresh {} 1).moments markerDropped) := by
    have hsplit : (fresh {} 1).moments markerDropped = (fresh {} 1).moments (markerDropped.take 4) ++
      firstListing :: (momentsFrom 5 firstListing.after ((markerDropped.drop 5).take 2) ++ [secondListing]) := rfl
    rw [hsplit]
    exact List.sublist_append_of_sublist_right ((List.sublist_append_right _ [secondListing]).cons_cons _)
  have hempty : firstListing.engine.NoEmptyKey "b" ∧ secondListing.engine.NoEmptyKey "b" := by decide
  have hfollows : FollowsMarkers "b" none none 1 ((fresh {} 1).moments markerDropped)
      [⟨firstListing, (none, none), page⟩, ⟨secondListing, (some "k", some (VersionId.ofCounter 2)), page'⟩] :=
    { within := hwithin
      asked := by simp [firstListing, secondListing]
      answered := by simp [hpage, hpage']
      onward := by simp [hmore] }
  refine ⟨_, hfollows, by simp [hrows, hrows'], ?_⟩
  exact (versions_never_repeated (by decide) le_rfl hfollows (by simpa using hempty)
    (by simp [VersionId.ofCounter_ne_null])).2.1

end Engine

end BucketStore
