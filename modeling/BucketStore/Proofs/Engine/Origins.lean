import BucketStore.Proofs.Engine.GeneratedVersions
import BucketStore.Proofs.Listing.Resume

namespace BucketStore

def Moment.past (run : List Moment) (m : Moment) : List Moment := run.filter (fun m' => m'.time < m.time)

namespace Engine

open Listing

/-- `w` is the write that `v` goes back to, a version found in the bucket after `past`. -/
structure Origin (name : String) (past : List Moment) (v : Version) (w : Write) : Prop where
  survives : w ∈ survivors name v.key past
  same : w.version = v.identified

/-- The version ID was issued at that time of the run. -/
def Drawn (run : List Moment) (id : String) (time : Nat) : Prop :=
  ∃ m ∈ run, m.issued? = some id ∧ m.time = time

variable {settings : Settings} {first : UInt64} {rs : List Request} {name key id id' : String} {m m' : Moment}
  {v v' : Version} {w w' : Write} {t t' : Nat}

section Run

variable (hrs : (fresh settings first).Unwrapped rs)

include hrs

theorem history_of_past (hm : m ∈ (fresh settings first).moments rs) (name key : String) :
    (m.engine.history name key).map Version.identified =
      (survivors name key (m.past ((fresh settings first).moments rs))).map Write.version := by
  obtain ⟨before, after, hsplit⟩ := List.append_of_mem hm
  have htimes := times_ascending 0 (fresh settings first) rs
  rw [← moments, hsplit] at htimes
  obtain ⟨_, hafter, hcross⟩ := List.pairwise_append.mp htimes
  have hpast : m.past ((fresh settings first).moments rs) = before := by
    rw [Moment.past, hsplit, List.filter_append]
    have hkept : before.filter (fun m' => m'.time < m.time) = before :=
      List.filter_eq_self.mpr (fun m' hm' => decide_eq_true (hcross m' hm' m List.mem_cons_self))
    have hdropped : (m :: after).filter (fun m' => m'.time < m.time) = [] := by
      refine List.filter_eq_nil_iff.mpr (List.forall_mem_cons.mpr ⟨by simp, fun m' hm' => ?_⟩)
      simpa using ((List.pairwise_cons.mp hafter).1 m' hm').le
    rw [hkept, hdropped, List.append_nil]
  obtain ⟨earlier, later, rfl, hengine, hbefore, _⟩ := momentsFrom_split hsplit
  rw [hpast, hengine, hbefore]
  exact history_fresh_run (unwrapped_append.mp hrs).1 name key

theorem sound_of_mem (hm : m ∈ (fresh settings first).moments rs) : m.engine.Sound :=
  (mem_moments_reachable (.fresh settings first) hrs hm).1.sound

theorem exists_origin (hm : m ∈ (fresh settings first).moments rs) (hv : v ∈ m.engine.history name v.key) :
    ∃ w, Origin name (m.past ((fresh settings first).moments rs)) v w := by
  have hmem := List.mem_map_of_mem (f := Version.identified) hv
  rw [history_of_past hrs hm] at hmem
  obtain ⟨w, hw, hsame⟩ := List.mem_map.mp hmem
  exact ⟨w, hw, hsame⟩

theorem history_identified_nodup (hm : m ∈ (fresh settings first).moments rs) (name key : String) :
    ((m.engine.history name key).map Version.identified).Nodup := by
  cases hb : m.engine.buckets.get? name with
  | none =>
      rw [history_of_absent hb]
      exact List.nodup_nil
  | some b =>
      rw [history_of_bucket hb]
      refine List.pairwise_map.mpr (((sound_of_mem hrs hm name b hb).store.ids_distinct key).imp (fun hne heq => hne ?_))
      rw [← Version.idOrNull_identified, heq, Version.idOrNull_identified]

theorem Origin.lt_of_before (hm : m ∈ (fresh settings first).moments rs)
    (h : Origin name (m.past ((fresh settings first).moments rs)) v w)
    (h' : Origin name (m.past ((fresh settings first).moments rs)) v' w') (hv : v.key = key) (hv' : v'.key = key)
    (hbefore : [v, v'].Sublist (m.engine.history name key)) : w'.time < w.time := by
  have hwrites := hbefore.map Version.identified
  have hnodup := history_identified_nodup hrs hm name key
  rw [history_of_past hrs hm] at hwrites hnodup
  obtain ⟨hw, hsame⟩ := h
  obtain ⟨hw', hsame'⟩ := h'
  rw [hv] at hw
  rw [hv'] at hw'
  obtain ⟨l, hl, heq⟩ := List.sublist_map_iff.mp hwrites
  obtain ⟨x, x', rfl⟩ : ∃ x x', l = [x, x'] := List.length_eq_two.mp (by simpa using (congrArg List.length heq).symm)
  simp only [List.map_cons, List.map_nil, List.cons.injEq, and_true] at heq
  obtain rfl : x = w := List.inj_on_of_nodup_map hnodup (hl.subset List.mem_cons_self) hw
    (heq.1.symm.trans hsame.symm)
  obtain rfl : x' = w' := List.inj_on_of_nodup_map hnodup
    (hl.subset (List.mem_cons_of_mem _ List.mem_cons_self)) hw' (heq.2.symm.trans hsame'.symm)
  have htimes : (m.past ((fresh settings first).moments rs)).Pairwise (fun m m' => m.time < m'.time) :=
    (times_ascending 0 (fresh settings first) rs).filter _
  exact List.pairwise_iff_forall_sublist.mp (survivors_ordered htimes) hl

end Run

theorem Origin.reported {run : List Moment} (h : Origin name (m.past run) v w) :
    ∃ m' ∈ run, m'.time = w.time ∧ ∃ u, m'.reported? name v.key = some u ∧ u.identified = w.version := by
  obtain ⟨before, m', after, hsplit, hwrite, _⟩ := mem_survivors.mp h.survives
  obtain ⟨u, hu, rfl⟩ := Option.map_eq_some_iff.mp hwrite
  have hmem : m' ∈ m.past run := by
    rw [hsplit]
    exact List.mem_append_right _ List.mem_cons_self
  rw [m'.written?_eq] at hu
  exact ⟨m', List.mem_of_mem_filter hmem, rfl, Option.map_eq_some_iff.mp hu⟩

theorem Origin.drawn {run : List Moment} (h : Origin name (m.past run) v w) (hne : v.idOrNull ≠ VersionId.null) :
    Drawn run v.idOrNull w.time := by
  obtain ⟨m', hm', htime, u, hreported, hu⟩ := h.reported
  have hid : u.idOrNull = v.idOrNull := by
    rw [← Version.idOrNull_identified, hu, h.same, Version.idOrNull_identified]
  refine ⟨m', hm', ?_, htime⟩
  cases hw : u.id? with
  | none =>
      rw [Version.idOrNull, hw] at hid
      exact absurd hid.symm hne
  | some id =>
      rw [Version.idOrNull, hw, Option.getD_some] at hid
      subst hid
      exact issued?_of_reported hreported hw hne

theorem eq_of_time {time : Nat} {e : Engine} (hm : m ∈ momentsFrom time e rs) (hm' : m' ∈ momentsFrom time e rs)
    (h : m.time = m'.time) : m = m' := by
  by_contra hne
  rcases pair_sublist_total hm hm' hne with hpair | hpair
  · exact absurd h (List.pairwise_iff_forall_sublist.mp (times_ascending time e rs) hpair).ne
  · exact absurd h (List.pairwise_iff_forall_sublist.mp (times_ascending time e rs) hpair).ne'

theorem Origin.key_eq {past past' : Moment} (h : Origin name (past.past ((fresh settings first).moments rs)) v w)
    (h' : Origin name (past'.past ((fresh settings first).moments rs)) v' w') (ht : w.time = w'.time) :
    v.key = v'.key := by
  obtain ⟨m, hm, htime, _, hreported, _⟩ := h.reported
  obtain ⟨m', hm', htime', _, hreported', _⟩ := h'.reported
  obtain rfl : m = m' := eq_of_time hm hm' (by rw [htime, htime', ht])
  exact (eq_of_reported hreported hreported').2.1.symm

theorem Drawn.unique (hrs : (fresh settings first).Unwrapped rs) (h : Drawn ((fresh settings first).moments rs) id t)
    (h' : Drawn ((fresh settings first).moments rs) id t') : t = t' := by
  obtain ⟨m, hm, hissued, rfl⟩ := h
  obtain ⟨m', hm', hissued', rfl⟩ := h'
  rw [eq_of_issued hrs hm hm' hissued hissued']

theorem Drawn.lt (hrs : (fresh settings first).Unwrapped rs) (h : Drawn ((fresh settings first).moments rs) id t)
    (h' : Drawn ((fresh settings first).moments rs) id' t') (hid : id < id') : t < t' := by
  obtain ⟨m, hm, hissued, rfl⟩ := h
  obtain ⟨m', hm', hissued', rfl⟩ := h'
  have hne : m ≠ m' := by
    rintro rfl
    rw [Option.some.inj (hissued.symm.trans hissued')] at hid
    exact lt_irrefl _ hid
  rcases pair_sublist_total hm hm' hne with hpair | hpair
  · exact List.pairwise_iff_forall_sublist.mp (times_ascending 0 (fresh settings first) rs) hpair
  · have hascending : (((fresh settings first).moments rs).filterMap Moment.issued?).Pairwise (· < ·) :=
      issued_ascending hrs
    have hlt := List.pairwise_iff_forall_sublist.mp (List.pairwise_filterMap.mp hascending) hpair
    exact absurd (hlt id' hissued' id hissued) (lt_asymm hid)

end Engine

end BucketStore
