import BucketStore.Proofs.Engine.TokenReading
import BucketStore.Proofs.Engine.VersionReading
import BucketStore.Proofs.Listing.EmptyMarker

namespace BucketStore

/-- A first page of objects ends at the empty key, whose marker is the same as none, and leaves something. -/
def Bucket.StallsObjects (b : Bucket) (stem start : Option String) (cap : Nat) : Prop :=
  stem.getD "" = "" ∧ start.getD "" = "" ∧ cap = 1 ∧ b.store.get? "" ≠ none ∧ ∃ key ≠ "", b.store.get? key ≠ none

/-- A first page of versions ends within the history of the empty key, and leaves something. -/
def Bucket.StallsVersions (b : Bucket) (stem : Option String) (cap : Nat) : Prop :=
  stem.getD "" = "" ∧ cap ≤ (b.store.history "").length ∧
    (cap < (b.store.history "").length ∨ ∃ key ≠ "", b.store.history key ≠ [])

namespace Engine

open Listing

section Loops

variable {Place Page ι : Type} {read : Engine → Place → Except StoreError Page} {resume : Page → Option Place}
  {items : Page → List ι} {name : String} {e : Engine} {b : Bucket} {place next : Place} {page : Page}

/-- While a bucket stays as it is, a client that reads it comes to the end, whatever else happens, and is
shown nothing twice. -/
structure ReadsThrough (read : Engine → Place → Except StoreError Page) (resume : Page → Option Place)
    (items : Page → List ι) (name : String) (e : Engine) (place : Place) : Prop where
  ends : ∃ visits, Reading read resume (fun _ => True) e place visits ∧ ∀ v ∈ visits, v.engine = e
  bounded : ∀ run, Endless read resume (fun _ => True) run → (run 0).engine = e → (run 0).place = place →
    ∃ i, (run i).engine.buckets.get? name ≠ e.buckets.get? name
  once : ∀ visits, Reading read resume (fun _ => True) e place visits →
    (∀ v ∈ visits, v.engine.buckets.get? name = e.buckets.get? name) →
      (visits.flatMap (fun v => items v.page)).Nodup

/-- A client is shown its first page for ever. -/
def RepeatsFirstPage (read : Engine → Place → Except StoreError Page) (resume : Page → Option Place)
    (e : Engine) (place : Place) : Prop :=
  ∃ next page, Endless read resume (fun _ => True) (fun i => ⟨e, if i = 0 then place else next, page⟩)

theorem ReadsThrough.of_ahead (hb : e.buckets.get? name = some b) (ahead : Place → List ι) (P : Place → Prop)
    (answered : ∀ e place, e.buckets.get? name = some b → P place → ∃ page, read e place = .ok page)
    (final : ∀ e place page, e.buckets.get? name = some b → P place → read e place = .ok page →
      resume page = none → items page = ahead place)
    (turn : ∀ e place page next, e.buckets.get? name = some b → P place → read e place = .ok page →
      resume page = some next → P next ∧ items page ++ ahead next = ahead place ∧ items page ≠ [])
    (hP : P place) (hnodup : (ahead place).Nodup) : ReadsThrough read resume items name e place := by
  have hless : ∀ e place page next, e.buckets.get? name = some b → P place → read e place = .ok page →
      resume page = some next → P next ∧ (ahead next).length < (ahead place).length := by
    intro e place page next hb hP answer more
    obtain ⟨hP', hsplit, hne⟩ := turn e place page next hb hP answer more
    have hlength := congrArg List.length hsplit
    have hpos := List.length_pos_iff.mpr hne
    rw [List.length_append] at hlength
    exact ⟨hP', by omega⟩
  constructor
  · apply Reading.exists_of_decreasing _ P (fun place => (ahead place).length)
    · intro place hP
      obtain ⟨page, answer⟩ := answered e place hb hP
      exact ⟨page, answer, fun next more => hless e place page next hb hP answer more⟩
    · exact hP
  · rintro run hrun hengine rfl
    rw [hb]
    exact hrun.exists_not_of_decreasing (fun e => e.buckets.get? name = some b) P
      (fun place => (ahead place).length) hless hP
  · intro visits h hsame
    rw [h.flatMap_items items ahead (fun e => e.buckets.get? name = some b) P final
      (fun e place page next hb hP answer more => by
        obtain ⟨hP', hsplit, _⟩ := turn e place page next hb hP answer more
        exact ⟨hP', hsplit⟩)
      (fun v hv => (hsame v hv).trans hb) hP]
    exact hnodup

theorem endless_of_next (answer : read e place = .ok page) (more : resume page = some next)
    (again : read e next = .ok page) :
    Endless read resume (fun _ => True) (fun i => ⟨e, if i = 0 then place else next, page⟩) := by
  refine ⟨fun i => ?_, fun _ => more, fun _ => ⟨[], by simp, rfl⟩⟩
  by_cases hi : i = 0
  · simpa only [if_pos hi] using answer
  · simpa only [if_neg hi] using again

end Loops

variable {e : Engine} {name : String} {b : Bucket} {n : UInt64} {stem delimiter start : Option String} {cap : Nat}

section Objects

variable {place next : Option String} {page : Page Head}

theorem nodup_of_marks {l : List (Item Head)} (h : l.Pairwise (fun i j => i.mark < j.mark)) : l.Nodup :=
  h.imp (fun hlt heq => absurd (heq ▸ hlt) (lt_irrefl _))

theorem readObjects_going (hcap : 1 ≤ cap) (hb : e.buckets.get? name = some b)
    (hgo : (Page.cut cap (b.store.liveAfter stem delimiter place)).nextMarker ≠ some "")
    (answer : readObjects name stem delimiter cap e place = .ok page) (more : resumeObjects page = some next) :
    (Page.cut cap (b.store.liveAfter stem delimiter next)).nextMarker ≠ some "" ∧
      page.items ++ b.store.liveAfter stem delimiter next = b.store.liveAfter stem delimiter place ∧
      page.items ≠ [] := by
  obtain ⟨i, hi, hnext, _, _, hsplit⟩ := readObjects_next hcap hb answer more
  have hne : i.mark ≠ "" := by
    obtain ⟨b', hb', rfl⟩ := readObjects_eq_ok.mp answer
    obtain rfl : b = b' := Option.some.inj (hb.symm.trans hb')
    rw [← (resumeObjects_eq_some.mp more).2, hnext] at hgo
    exact fun hmark => hgo (congrArg some hmark)
  refine ⟨Page.cut_goes_on (fun j hj => ?_), (hsplit hne).symm, List.ne_nil_of_mem hi⟩
  rw [hnext] at hj
  have hlt : i.mark < j.mark := (ObjectStore.mem_liveAfter.mp hj).2.resolve_left hne
  exact ((empty_lt hne).trans hlt).ne'

theorem liveAfter_empty (h : place.getD "" = "") :
    b.store.liveAfter stem delimiter place = b.store.liveItems (stem.getD "") (delimiter.getD "") :=
  List.filter_eq_self.mpr (fun _ _ => decide_eq_true (.inl h))

theorem liveItems_stall_iff (hcap : 1 ≤ cap) :
    (Page.cut cap (b.store.liveItems (stem.getD "") (delimiter.getD ""))).nextMarker = some "" ↔
      stem.getD "" = "" ∧ cap = 1 ∧ b.store.get? "" ≠ none ∧ ∃ key ≠ "", b.store.get? key ≠ none := by
  have hasc : (b.store.current.map (fun e => (e.1, [e.2.toHead]))).Pairwise (fun a b => a.1 < b.1) :=
    List.pairwise_map.mpr b.store.current_ascending
  have hrows : ∀ e ∈ b.store.current.map (fun e => (e.1, [e.2.toHead])), e.2 ≠ [] := by
    intro e he
    obtain ⟨_, _, rfl⟩ := List.mem_map.mp he
    exact List.cons_ne_nil _ _
  rw [ObjectStore.liveItems, cut_items_nextMarker_empty_iff hcap hasc hrows]
  refine and_congr_right (fun _ => ?_)
  constructor
  · rintro ⟨rows, hmem, hle, hmany⟩
    obtain ⟨⟨_, o⟩, ho, heq⟩ := List.mem_map.mp hmem
    cases heq
    have hone : cap = 1 := le_antisymm hle hcap
    refine ⟨hone, by rw [ObjectStore.mem_current.mp ho]; exact Option.some_ne_none o, ?_⟩
    rcases hmany with hlt | ⟨_, he, hne⟩
    · rw [hone] at hlt
      exact absurd hlt (lt_irrefl _)
    · obtain ⟨⟨key, p⟩, hp, rfl⟩ := List.mem_map.mp he
      exact ⟨key, hne, by rw [ObjectStore.mem_current.mp hp]; exact Option.some_ne_none p⟩
  · rintro ⟨rfl, hfirst, key, hne, hkey⟩
    obtain ⟨o, ho⟩ := Option.ne_none_iff_exists'.mp hfirst
    obtain ⟨p, hp⟩ := Option.ne_none_iff_exists'.mp hkey
    exact ⟨_, List.mem_map.mpr ⟨_, ObjectStore.mem_current.mpr ho, rfl⟩, le_rfl,
      .inr ⟨_, List.mem_map.mpr ⟨_, ObjectStore.mem_current.mpr hp, rfl⟩, hne⟩⟩

theorem objects_stall_iff (hcap : 1 ≤ cap) :
    (Page.cut cap (b.store.liveAfter stem delimiter start)).nextMarker = some "" ↔
      b.StallsObjects stem start cap := by
  by_cases hstart : start.getD "" = ""
  · rw [liveAfter_empty hstart, liveItems_stall_iff hcap, Bucket.StallsObjects]
    exact and_congr_right (fun _ => (and_iff_right hstart).symm)
  · refine iff_of_false (Page.cut_goes_on (fun i hi => ?_)) (fun h => hstart h.2.1)
    have hlt : start.getD "" < i.mark := (ObjectStore.mem_liveAfter.mp hi).2.resolve_left hstart
    exact ((empty_lt hstart).trans hlt).ne'

theorem objects_read_through (hcap : 1 ≤ cap) (hb : e.buckets.get? name = some b)
    (hgo : ¬ b.StallsObjects stem start cap) :
    ReadsThrough (readObjects name stem delimiter cap) resumeObjects Page.items name e start := by
  apply ReadsThrough.of_ahead hb (fun place => b.store.liveAfter stem delimiter place)
    (fun place => (Page.cut cap (b.store.liveAfter stem delimiter place)).nextMarker ≠ some "")
  · exact fun e place hb _ => ⟨_, readObjects_eq_ok.mpr ⟨b, hb, rfl⟩⟩
  · exact fun e place page hb _ answer final => readObjects_final hb answer final
  · exact fun e place page next hb hP answer more => readObjects_going hcap hb hP answer more
  · exact mt (objects_stall_iff hcap).mp hgo
  · exact nodup_of_marks ObjectStore.liveAfter_ascending

theorem tokens_turn (hcap : 1 ≤ cap) (hb : e.buckets.get? name = some b) {token next : Option String}
    {page : TokenPage} (htoken : Decodable token)
    (answer : readByToken name stem delimiter start cap e token = .ok page) (more : resumeTokens page = some next) :
    ∃ p, page = tokenPage p ∧ readObjects name stem delimiter cap e (markerOf start token) = .ok p ∧
      resumeObjects p = some (markerOf start next) ∧ Decodable next := by
  obtain ⟨p, hp, rfl⟩ := (readByToken_eq_ok htoken).mp answer
  have htruncated : p.truncated = true := by
    by_contra hend
    rw [resumeTokens, tokenPage, if_neg hend] at more
    cases more
  have hmarker : p.nextMarker ≠ none := by
    obtain ⟨i, _, hnext, _⟩ := readObjects_next hcap hb hp (resumeObjects_eq_some.mpr ⟨htruncated, rfl⟩)
    rw [hnext]
    exact Option.some_ne_none _
  obtain ⟨m, hm, rfl⟩ := resumeTokens_eq_some hmarker more
  exact ⟨p, rfl, hp, by rw [hm, markerOf_encode], decodable_encode m⟩

theorem tokens_read_through (hcap : 1 ≤ cap) (hb : e.buckets.get? name = some b)
    (hgo : ¬ b.StallsObjects stem start cap) :
    ReadsThrough (readByToken name stem delimiter start cap) resumeTokens (fun p => p.items) name e none := by
  apply ReadsThrough.of_ahead hb (fun token => b.store.liveAfter stem delimiter (markerOf start token))
    (fun token => Decodable token ∧
      (Page.cut cap (b.store.liveAfter stem delimiter (markerOf start token))).nextMarker ≠ some "")
  · intro e token hb hP
    exact ⟨_, (readByToken_eq_ok hP.1).mpr ⟨_, readObjects_eq_ok.mpr ⟨b, hb, rfl⟩, rfl⟩⟩
  · intro e token page hb hP answer final
    obtain ⟨p, hp, rfl⟩ := (readByToken_eq_ok hP.1).mp answer
    exact readObjects_final hb hp (resumeTokens_eq_none.mp final)
  · intro e token page next hb hP answer more
    obtain ⟨p, rfl, hp, hmore, hnext⟩ := tokens_turn hcap hb hP.1 answer more
    obtain ⟨hgo', hrest⟩ := readObjects_going hcap hb hP.2 hp hmore
    exact ⟨⟨hnext, hgo'⟩, hrest⟩
  · exact ⟨decodable_none, mt (objects_stall_iff hcap).mp hgo⟩
  · exact nodup_of_marks ObjectStore.liveAfter_ascending

theorem objects_again (hcap : 1 ≤ cap) (hb : e.buckets.get? name = some b) (h : b.StallsObjects stem start cap) :
    ∃ page, readObjects name stem delimiter cap e start = .ok page ∧
      readObjects name stem delimiter cap e (some "") = .ok page ∧
      page.truncated = true ∧ page.nextMarker = some "" := by
  have hmarker : (Page.cut cap (b.store.liveAfter stem delimiter start)).nextMarker = some "" :=
    (objects_stall_iff hcap).mpr h
  have hsame : b.store.liveAfter stem delimiter (some "") = b.store.liveAfter stem delimiter start := by
    rw [liveAfter_empty h.2.1, liveAfter_empty rfl]
  exact ⟨_, readObjects_eq_ok.mpr ⟨b, hb, rfl⟩, readObjects_eq_ok.mpr ⟨b, hb, by rw [hsame]⟩,
    Page.truncated_of_nextMarker hmarker, hmarker⟩

theorem objects_repeat (hcap : 1 ≤ cap) (hb : e.buckets.get? name = some b) (h : b.StallsObjects stem start cap) :
    RepeatsFirstPage (readObjects name stem delimiter cap) resumeObjects e start := by
  obtain ⟨page, hfirst, hagain, htruncated, hmarker⟩ := objects_again hcap hb h
  exact ⟨_, page, endless_of_next hfirst (resumeObjects_eq_some.mpr ⟨htruncated, hmarker.symm⟩) hagain⟩

theorem tokens_repeat (hcap : 1 ≤ cap) (hb : e.buckets.get? name = some b) (h : b.StallsObjects stem start cap) :
    RepeatsFirstPage (readByToken name stem delimiter start cap) resumeTokens e none := by
  obtain ⟨page, hfirst, hagain, htruncated, hmarker⟩ := objects_again hcap hb h
  have hnext : resumeTokens (tokenPage page) = some (some (ContinuationToken.encode "")) := by
    rw [resumeTokens, tokenPage, if_pos htruncated, hmarker]
    rfl
  refine ⟨_, tokenPage page, endless_of_next ((readByToken_eq_ok decodable_none).mpr ⟨page, hfirst, rfl⟩) hnext
    ((readByToken_eq_ok (decodable_encode "")).mpr ⟨page, ?_, rfl⟩)⟩
  rw [markerOf_encode]
  exact hagain

end Objects

section Versions

variable {place next : Option String × Option String} {page : VersionPage}

theorem versions_stall_iff (hcap : 1 ≤ cap) (hs : b.store.Sound n) :
    (Page.cut cap (b.store.versionItems (stem.getD "") (delimiter.getD ""))).nextMarker = some "" ↔
      b.StallsVersions stem cap := by
  have hasc : (b.store.histories.map (fun e => (e.1, historyRows e.2))).Pairwise (fun a b => a.1 < b.1) :=
    List.pairwise_map.mpr b.store.histories_ascending
  have hlength : ∀ l : History, (historyRows l).length = l.length := fun l => by
    conv_rhs => rw [← map_version_historyRows l, List.length_map]
  have hrows : ∀ e ∈ b.store.histories.map (fun e => (e.1, historyRows e.2)), e.2 ≠ [] := by
    intro e he
    obtain ⟨⟨_, l⟩, hl, rfl⟩ := List.mem_map.mp he
    exact List.ne_nil_of_length_pos (by rw [hlength]; exact List.length_pos_iff.mpr (hs.nonempty_of_mem hl))
  rw [ObjectStore.versionItems, cut_items_nextMarker_empty_iff hcap hasc hrows, Bucket.StallsVersions]
  refine and_congr_right (fun _ => ?_)
  constructor
  · rintro ⟨rows, hmem, hle, hmany⟩
    obtain ⟨⟨_, l⟩, hl, heq⟩ := List.mem_map.mp hmem
    cases heq
    rw [hlength] at hle hmany
    rw [ObjectStore.history_of_mem hl]
    refine ⟨hle, hmany.imp id ?_⟩
    rintro ⟨_, he, hne⟩
    obtain ⟨⟨key, l'⟩, hl', rfl⟩ := List.mem_map.mp he
    exact ⟨key, hne, by rw [ObjectStore.history_of_mem hl']; exact hs.nonempty_of_mem hl'⟩
  · rintro ⟨hle, hmany⟩
    have hfirst : b.store.history "" ≠ [] := List.ne_nil_of_length_pos (hcap.trans hle)
    refine ⟨_, List.mem_map.mpr ⟨_, ObjectStore.mem_histories hfirst, rfl⟩, by rwa [hlength], ?_⟩
    rw [hlength]
    refine hmany.imp id ?_
    rintro ⟨key, hne, hkey⟩
    exact ⟨_, List.mem_map.mpr ⟨_, ObjectStore.mem_histories hkey, rfl⟩, hne⟩

theorem versions_read_through (hcap : 1 ≤ cap) (hs : b.store.Sound n) (hb : e.buckets.get? name = some b)
    (hgo : ¬ b.StallsVersions stem cap) :
    ReadsThrough (readVersions name stem delimiter cap) resumeVersions (fun p => p.items) name e (none, none) := by
  apply ReadsThrough.of_ahead hb (fun place => b.store.versionsFrom (versionQuery stem delimiter cap place))
    (fun place => PlaceOf b.store place ∧
      b.store.versionsFrom (versionQuery stem delimiter cap place) <:+
        b.store.versionItems (stem.getD "") (delimiter.getD "") ∧
      (Page.cut cap (b.store.versionsFrom (versionQuery stem delimiter cap place))).nextMarker ≠ some "")
  · exact fun e place hb _ => ⟨_, readVersions_eq_ok.mpr ⟨b, hb, rfl⟩⟩
  · exact fun e place page hb hP answer final => readVersions_final hb hP.1 answer final
  · intro e place page next hb hP answer more
    obtain ⟨hP', hsplit, hlength⟩ := readVersions_going hcap hs hb hP.1 hP.2.1 hP.2.2 answer more
    exact ⟨hP', hsplit, List.ne_nil_of_length_pos (by omega)⟩
  · rw [versionsFrom_none]
    exact ⟨.inr rfl, List.suffix_rfl, mt (versions_stall_iff hcap hs).mp hgo⟩
  · refine (ObjectStore.versionsFrom_pairwise _ b.store).imp (fun {i j} hij heq => ?_)
    exact hs.precedes_asymm i j hij (heq ▸ hij)

theorem versions_repeat (hcap : 1 ≤ cap) (hs : b.store.Sound n) (hb : e.buckets.get? name = some b)
    (h : b.StallsVersions stem cap) :
    RepeatsFirstPage (readVersions name stem delimiter cap) resumeVersions e (none, none) := by
  have hfirst : readVersions name stem delimiter cap e (none, none) =
      .ok (b.store.listVersions (versionQuery stem delimiter cap (none, none))) := readVersions_eq_ok.mpr ⟨b, hb, rfl⟩
  have hmarker : (b.store.listVersions (versionQuery stem delimiter cap (none, none))).nextMarker = some "" := by
    rw [readVersions_page hb (.inr rfl) hfirst, versionsFrom_none]
    exact (versions_stall_iff hcap hs).mpr h
  have hmore := resumeVersions_eq_some.mpr ⟨Page.truncated_of_nextMarker hmarker, rfl⟩
  refine ⟨_, _, endless_of_next hfirst hmore ?_⟩
  rw [hmarker]
  exact readVersions_eq_ok.mpr ⟨b, hb, (ObjectStore.listVersions_start _ _ _ _ b.store).symm⟩

end Versions

/-- The loops over pages end and show nothing twice, but for one case: where a page ends at the empty key and
leaves something, its marker is taken for none, and the same page comes again and again. -/
theorem paging_ends_unless_stalled (he : ReachableUnwrapped e) (hb : e.buckets.get? name = some b)
    (hcap : 1 ≤ cap) :
    (¬ b.StallsObjects stem start cap →
      ReadsThrough (readObjects name stem delimiter cap) resumeObjects Page.items name e start ∧
      ReadsThrough (readByToken name stem delimiter start cap) resumeTokens (fun p => p.items) name e none) ∧
    (b.StallsObjects stem start cap →
      RepeatsFirstPage (readObjects name stem delimiter cap) resumeObjects e start ∧
      RepeatsFirstPage (readByToken name stem delimiter start cap) resumeTokens e none) ∧
    (¬ b.StallsVersions stem cap →
      ReadsThrough (readVersions name stem delimiter cap) resumeVersions (fun p => p.items) name e (none, none)) ∧
    (b.StallsVersions stem cap →
      RepeatsFirstPage (readVersions name stem delimiter cap) resumeVersions e (none, none)) := by
  have hs := (he.sound name b hb).store
  refine ⟨fun h => ⟨?_, ?_⟩, fun h => ⟨?_, ?_⟩, fun h => ?_, fun h => ?_⟩
  · exact objects_read_through hcap hb h
  · exact tokens_read_through hcap hb h
  · exact objects_repeat hcap hb h
  · exact tokens_repeat hcap hb h
  · exact versions_read_through hcap hs hb h
  · exact versions_repeat hcap hs hb h

def emptyKeyed : Engine :=
  ((fresh {} 1).run [.createBucket "b", .putObject "b" "" [] {}, .putObject "b" "a" [] {}]).2

theorem emptyKeyed_reachable : ReachableUnwrapped emptyKeyed := by
  refine .step (.putObject "b" "a" [] {}) (.step (.putObject "b" "" [] {}) (.step (.createBucket "b")
    (.fresh {} 1) ?_) ?_) ?_
  all_goals decide

theorem emptyKeyed_pages :
    ReadsThrough (readObjects "b" none none 2) resumeObjects Page.items "b" emptyKeyed none ∧
    RepeatsFirstPage (readObjects "b" none none 1) resumeObjects emptyKeyed none ∧
    RepeatsFirstPage (readVersions "b" none none 1) resumeVersions emptyKeyed (none, none) := by
  obtain ⟨b, hb, hobjects, hversions⟩ : ∃ b, emptyKeyed.buckets.get? "b" = some b ∧
      (b.store.get? "" ≠ none ∧ b.store.get? "a" ≠ none) ∧
      1 ≤ (b.store.history "").length ∧ b.store.history "a" ≠ [] := ⟨_, rfl, by decide, by decide⟩
  have hwide : ¬ b.StallsObjects none none 2 := fun h => absurd h.2.2.1 (by decide)
  have hnarrow : b.StallsObjects none none 1 := ⟨rfl, rfl, rfl, hobjects.1, "a", by decide, hobjects.2⟩
  have hnarrow' : b.StallsVersions none 1 := ⟨rfl, hversions.1, .inr ⟨"a", by decide, hversions.2⟩⟩
  obtain ⟨hends, _⟩ := paging_ends_unless_stalled emptyKeyed_reachable hb (by decide : 1 ≤ 2)
  obtain ⟨_, hobjects, _, hversions⟩ := paging_ends_unless_stalled emptyKeyed_reachable hb (le_refl 1)
  exact ⟨(hends hwide).1, (hobjects hnarrow).1, hversions hnarrow'⟩

/-- With the keys `""` and `"a"` in a bucket, pages of one object show `""` for ever, and `"a"` never. -/
theorem empty_key_never_passed :
    (∃ page, page.items.map Item.mark = [""] ∧
      Endless (readObjects "b" none none 1) resumeObjects (fun _ => True)
        (fun i => ⟨emptyKeyed, if i = 0 then none else some "", page⟩)) ∧
    ¬ ∃ visits, ObjectReading "b" none none 1 emptyKeyed none visits ∧ ∀ v ∈ visits, v.engine = emptyKeyed := by
  obtain ⟨page, hfirst, hagain, hmore, hmarks⟩ : ∃ page, readObjects "b" none none 1 emptyKeyed none = .ok page ∧
      readObjects "b" none none 1 emptyKeyed (some "") = .ok page ∧ resumeObjects page = some (some "") ∧
      page.items.map Item.mark = [""] := ⟨_, rfl, rfl, rfl, rfl⟩
  have hloop : Endless (readObjects "b" none none 1) resumeObjects (fun _ => True)
      (fun i => ⟨emptyKeyed, if i = 0 then none else some "", page⟩) := endless_of_next hfirst hmore hagain
  exact ⟨⟨page, hmarks, hloop⟩, hloop.no_reading (fun _ => rfl)⟩

end Engine

end BucketStore
