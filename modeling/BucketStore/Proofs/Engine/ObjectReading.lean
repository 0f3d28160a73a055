import BucketStore.Proofs.Engine.Invariant
import BucketStore.Proofs.Engine.Reading
import BucketStore.Proofs.Store.Live

namespace BucketStore

namespace Engine

open Listing

variable {e : Engine} {name : String} {stem delimiter place next : Option String} {cap : Nat}
  {page : Page Head} {visits : List (Visit (Option String) (Page Head))}

def readObjects (name : String) (stem delimiter : Option String) (cap : Nat) (e : Engine)
    (marker : Option String) : Except StoreError (Page Head) :=
  e.listObjects name stem delimiter marker (some cap)

def resumeObjects (p : Page Head) : Option (Option String) :=
  if p.truncated then some p.nextMarker else none

/-- Objects are read page by page, and any requests at all come in between. -/
abbrev ObjectReading (name : String) (stem delimiter : Option String) (cap : Nat) :
    Engine → Option String → List (Visit (Option String) (Page Head)) → Prop :=
  Reading (readObjects name stem delimiter cap) resumeObjects (fun _ => True)

theorem readObjects_eq_ok : readObjects name stem delimiter cap e place = .ok page ↔
    ∃ b, e.buckets.get? name = some b ∧ page = Page.cut cap (b.store.liveAfter stem delimiter place) := by
  rw [readObjects, listObjects, bind_eq_ok]
  constructor
  · rintro ⟨b, hb, h⟩
    cases h
    exact ⟨b, bucket_eq_ok.mp hb, ObjectStore.listObjects_eq_cut _ _⟩
  · rintro ⟨b, hb, rfl⟩
    exact ⟨b, bucket_eq_ok.mpr hb, congrArg Except.ok (ObjectStore.listObjects_eq_cut _ _)⟩

theorem getObject_eq_ok {key : String} {o : Object} : e.getObject name key = .ok o ↔
    ∃ b, e.buckets.get? name = some b ∧ b.store.get? key = some o := by
  rw [getObject, bind_eq_ok]
  constructor
  · rintro ⟨b, hb, h⟩
    cases ho : b.store.get? key with
    | none => rw [ho] at h; cases h
    | some p => rw [ho] at h; cases h; exact ⟨b, bucket_eq_ok.mp hb, ho⟩
  · rintro ⟨b, hb, ho⟩
    exact ⟨b, bucket_eq_ok.mpr hb, by rw [ho]⟩

theorem resumeObjects_eq_none : resumeObjects page = none ↔ page.truncated = false := by
  rw [resumeObjects]
  cases page.truncated <;> simp

theorem resumeObjects_eq_some : resumeObjects page = some next ↔ page.truncated = true ∧ next = page.nextMarker := by
  rw [resumeObjects]
  cases page.truncated <;> simp [eq_comm]

theorem readObjects_final {b : Bucket} (hb : e.buckets.get? name = some b)
    (answer : readObjects name stem delimiter cap e place = .ok page) (final : resumeObjects page = none) :
    page.items = b.store.liveAfter stem delimiter place := by
  obtain ⟨b', hb', rfl⟩ := readObjects_eq_ok.mp answer
  obtain rfl : b = b' := Option.some.inj (hb.symm.trans hb')
  exact Page.cut_final (resumeObjects_eq_none.mp final)

theorem readObjects_next (hcap : 1 ≤ cap) {b : Bucket} (hb : e.buckets.get? name = some b)
    (answer : readObjects name stem delimiter cap e place = .ok page) (more : resumeObjects page = some next) :
    ∃ i ∈ page.items, next = some i.mark ∧ i ∈ b.store.liveAfter stem delimiter place ∧
      (∀ j ∈ page.items, j.mark ≤ i.mark) ∧ (i.mark ≠ "" →
        b.store.liveAfter stem delimiter place = page.items ++ b.store.liveAfter stem delimiter next) := by
  obtain ⟨b', hb', rfl⟩ := readObjects_eq_ok.mp answer
  obtain rfl : b = b' := Option.some.inj (hb.symm.trans hb')
  obtain ⟨htruncated, rfl⟩ := resumeObjects_eq_some.mp more
  obtain ⟨marker, hmarker, ⟨i, hi, rfl⟩, hle, hsplit⟩ :=
    Page.cut_turn hcap ObjectStore.liveAfter_ascending htruncated
  have hmem : i ∈ b.store.liveAfter stem delimiter place := List.mem_of_mem_take hi
  refine ⟨i, hi, hmarker, hmem, hle, fun hne => ?_⟩
  rw [hmarker, ← ObjectStore.filter_liveAfter hmem hne]
  exact hsplit

theorem readObjects_turn (hcap : 1 ≤ cap) (hkey : e.NoEmptyKey name) {b : Bucket}
    (hb : e.buckets.get? name = some b) (answer : readObjects name stem delimiter cap e place = .ok page)
    (more : resumeObjects page = some next) :
    ∃ i ∈ page.items, next = some i.mark ∧ i.mark ≠ "" ∧ (∀ j ∈ page.items, j.mark ≤ i.mark) ∧
      b.store.liveAfter stem delimiter place = page.items ++ b.store.liveAfter stem delimiter next := by
  obtain ⟨i, hi, hnext, hmem, hle, hsplit⟩ := readObjects_next hcap hb answer more
  have hne : i.mark ≠ "" := ObjectStore.mark_ne_empty (hkey b hb) (ObjectStore.mem_liveAfter.mp hmem).1
  exact ⟨i, hi, hnext, hne, hle, hsplit hne⟩

theorem readObjects_items_past (answer : readObjects name stem delimiter cap e place = .ok page)
    {i : Item Head} (hi : i ∈ page.items) : place.getD "" = "" ∨ place.getD "" < i.mark := by
  obtain ⟨b, hb, rfl⟩ := readObjects_eq_ok.mp answer
  exact (ObjectStore.mem_liveAfter.mp (List.mem_of_mem_take hi)).2

theorem readObjects_ascending (answer : readObjects name stem delimiter cap e place = .ok page) :
    page.items.Pairwise (fun i j => i.mark < j.mark) := by
  obtain ⟨b, hb, rfl⟩ := readObjects_eq_ok.mp answer
  exact ObjectStore.liveAfter_ascending.sublist (List.take_sublist _ _)

theorem ObjectReading.ascending (hcap : 1 ≤ cap) (h : ObjectReading name stem delimiter cap e place visits)
    (hkeys : ∀ v ∈ visits, v.engine.NoEmptyKey name) :
    (visits.flatMap (fun v => v.page.items)).Pairwise (fun i j => i.mark < j.mark) := by
  refine (h.pairwise Page.items _ (fun place i => place.getD "" = "" ∨ place.getD "" < i.mark)
    (fun e => e.NoEmptyKey name) ?_ ?_ hkeys).1
  · exact fun e place page _ answer => ⟨readObjects_ascending answer, fun i hi => readObjects_items_past answer hi⟩
  · intro e place page next hkey answer more i hi
    obtain ⟨b, hb, _⟩ := readObjects_eq_ok.mp answer
    obtain ⟨last, hlast, rfl, hne, hle, _⟩ := readObjects_turn hcap hkey hb answer more
    have hlt : last.mark < i.mark := hi.resolve_left hne
    exact ⟨(readObjects_items_past answer hlast).imp id (fun hm => hm.trans hlt),
      fun j hj => (hle j hj).trans_lt hlt⟩

theorem ObjectReading.mark_of_covers {key : String} (h : ObjectReading name stem delimiter cap e place visits)
    {i : Item Head} (hi : i ∈ visits.flatMap (fun v => v.page.items))
    (hc : i.covers (stem.getD "") (delimiter.getD "") key = true) :
    i.mark = markOf (stem.getD "") (delimiter.getD "") key := by
  obtain ⟨v, hv, hi⟩ := List.mem_flatMap.mp hi
  obtain ⟨b, hb, hpage⟩ := readObjects_eq_ok.mp (h.answered v hv)
  rw [hpage] at hi
  exact Listing.mark_of_covers (ObjectStore.mem_liveAfter.mp (List.mem_of_mem_take hi)).1 hc

theorem exists_left_covers {key : String} (hu : Under (stem.getD "") key) (ho : ∃ o, e.getObject name key = .ok o)
    (hpast : place.getD "" = "" ∨ place.getD "" < markOf (stem.getD "") (delimiter.getD "") key) :
    ∃ b, e.buckets.get? name = some b ∧ ∃ i ∈ b.store.liveAfter stem delimiter place,
      i.covers (stem.getD "") (delimiter.getD "") key = true := by
  obtain ⟨o, ho⟩ := ho
  obtain ⟨b, hb, ho⟩ := getObject_eq_ok.mp ho
  obtain ⟨i, hi, hc⟩ := ObjectStore.exists_liveItem_covers hu ho
  rw [← Listing.mark_of_covers hi hc] at hpast
  exact ⟨b, hb, i, ObjectStore.mem_liveAfter.mpr ⟨hi, hpast⟩, hc⟩

theorem ObjectReading.exists_covers (hcap : 1 ≤ cap)
    (h : ObjectReading name stem delimiter cap e place visits)
    (hkeys : ∀ v ∈ visits, v.engine.NoEmptyKey name) {key : String} (hu : Under (stem.getD "") key)
    (hlive : ∀ v ∈ visits, ∃ o, v.engine.getObject name key = .ok o)
    (hpast : place.getD "" = "" ∨ place.getD "" < markOf (stem.getD "") (delimiter.getD "") key) :
    ∃ i ∈ visits.flatMap (fun v => v.page.items),
      i.covers (stem.getD "") (delimiter.getD "") key = true := by
  apply h.exists_mem Page.items _
    (fun place => place.getD "" = "" ∨ place.getD "" < markOf (stem.getD "") (delimiter.getD "") key)
    (fun e => e.NoEmptyKey name ∧ ∃ o, e.getObject name key = .ok o)
  · intro e place page hS hpast answer final
    obtain ⟨b, hb, i, hi, hc⟩ := exists_left_covers hu hS.2 hpast
    rw [readObjects_final hb answer final]
    exact ⟨i, hi, hc⟩
  · intro e place page next hS hpast answer more
    obtain ⟨b, hb, i, hi, hc⟩ := exists_left_covers hu hS.2 hpast
    obtain ⟨last, _, rfl, _, _, hsplit⟩ := readObjects_turn hcap hS.1 hb answer more
    rw [hsplit, List.mem_append] at hi
    refine hi.imp (fun hi => ⟨i, hi, hc⟩) (fun hi => ?_)
    obtain ⟨hlive', hpast'⟩ := ObjectStore.mem_liveAfter.mp hi
    rwa [Listing.mark_of_covers hlive' hc] at hpast'
  · exact fun v hv => ⟨hkeys v hv, hlive v hv⟩
  · exact hpast

theorem countP_eq_one_of_ascending {α : Type} {l : List (Item α)} {p : Item α → Bool} {mark : String}
    (asc : l.Pairwise (fun i j => i.mark < j.mark)) (hmark : ∀ i ∈ l, p i = true → i.mark = mark)
    (hex : ∃ i ∈ l, p i = true) : l.countP p = 1 := by
  refine countP_eq_one_of_pairwise asc (fun i hi j hj hpi hpj => ?_) hex
  rw [hmark i hi hpi, hmark j hj hpj]
  exact lt_irrefl mark

theorem ObjectReading.reported_row (he : Reachable e) (h : ObjectReading name stem delimiter cap e place visits)
    {v : Visit (Option String) (Page Head)} (hv : v ∈ visits) {key : String} {head : Head}
    (hrow : .row key head ∈ v.page.items) :
    head.key = key ∧ ∃ o, v.engine.getObject name key = .ok o ∧ o.toHead = head := by
  have hfiled : v.engine.Filed := h.forall_engines (fun e r _ hf => hf.step r) he.filed v hv
  obtain ⟨b, hb, hpage⟩ := readObjects_eq_ok.mp (h.answered v hv)
  rw [hpage] at hrow
  obtain ⟨_, _, o, ho, rfl⟩ :=
    ObjectStore.mem_liveItems_row.mp (ObjectStore.mem_liveAfter.mp (List.mem_of_mem_take hrow)).1
  exact ⟨(hfiled name b hb).2 key (.object o) (ObjectStore.mem_history_of_get? ho), o,
    getObject_eq_ok.mpr ⟨b, hb, ho⟩, rfl⟩

theorem ObjectReading.flatMap_unchanged (hcap : 1 ≤ cap)
    (h : ObjectReading name stem delimiter cap e place visits)
    (hkeys : ∀ v ∈ visits, v.engine.NoEmptyKey name) {b : Bucket}
    (hsame : ∀ v ∈ visits, v.engine.buckets.get? name = some b) :
    visits.flatMap (fun v => v.page.items) = b.store.liveAfter stem delimiter place := by
  apply h.flatMap_items Page.items (fun place => b.store.liveAfter stem delimiter place)
    (fun e => e.NoEmptyKey name ∧ e.buckets.get? name = some b) (fun _ => True)
  · intro e place page hS _ answer final
    exact readObjects_final hS.2 answer final
  · intro e place page next hS _ answer more
    obtain ⟨_, _, _, _, _, hsplit⟩ := readObjects_turn hcap hS.1 hS.2 answer more
    exact ⟨trivial, hsplit.symm⟩
  · exact fun v hv => ⟨hkeys v hv, hsame v hv⟩
  · exact trivial

theorem exists_objectReading (hcap : 1 ≤ cap) (hkey : e.NoEmptyKey name) {b : Bucket}
    (hb : e.buckets.get? name = some b) (place : Option String) :
    ∃ visits, ObjectReading name stem delimiter cap e place visits ∧ ∀ v ∈ visits, v.engine = e := by
  apply Reading.exists_of_decreasing _ (fun _ => True)
    (fun place => (b.store.liveAfter stem delimiter place).length)
  · intro place _
    have answer : readObjects name stem delimiter cap e place =
        .ok (Page.cut cap (b.store.liveAfter stem delimiter place)) := readObjects_eq_ok.mpr ⟨b, hb, rfl⟩
    refine ⟨_, answer, fun next more => ⟨trivial, ?_⟩⟩
    obtain ⟨i, hi, _, _, _, hsplit⟩ := readObjects_turn hcap hkey hb answer more
    have hlength := congrArg List.length hsplit
    have hpos := List.length_pos_of_mem hi
    rw [List.length_append] at hlength
    omega
  · exact trivial

/-- Whatever happens between the pages, a client reads objects exactly once. Each page is answered
while the bucket is there, and names where the next one starts. -/
theorem objects_read_exactly_once (he : Reachable e) (hcap : 1 ≤ cap)
    (h : ObjectReading name stem delimiter cap e none visits)
    (hkeys : ∀ v ∈ visits, v.engine.NoEmptyKey name) :
    (∀ (e' : Engine) place, e'.buckets.contains name = true →
      ∃ page, readObjects name stem delimiter cap e' place = .ok page ∧
        (page.truncated = true → ∃ marker, page.nextMarker = some marker)) ∧
    (visits.flatMap (fun v => v.page.items)).Pairwise (fun i j => i.mark < j.mark) ∧
    (∀ key, Under (stem.getD "") key → (∀ v ∈ visits, ∃ o, v.engine.getObject name key = .ok o) →
      (visits.flatMap (fun v => v.page.items)).countP
        (Item.covers (stem.getD "") (delimiter.getD "") key) = 1) ∧
    (∀ v ∈ visits, Splits v.page.items v.page.rows v.page.commonPrefixes ∧
      v.page.rows.length + v.page.commonPrefixes.length ≤ cap ∧ ∀ key head, .row key head ∈ v.page.items →
        head.key = key ∧ ∃ o, v.engine.getObject name key = .ok o ∧ o.toHead = head) ∧
    ((∀ v ∈ visits, v.engine.buckets.get? name = e.buckets.get? name) → ∀ n whole,
      e.listObjects name stem delimiter none (some n) = .ok whole → whole.truncated = false →
      visits.flatMap (fun v => v.page.items) = whole.items) ∧
    ∃ visits', ObjectReading name stem delimiter cap e none visits' ∧ ∀ v ∈ visits', v.engine = e := by
  obtain ⟨page, later, rfl⟩ := h.head
  have hkey : e.NoEmptyKey name := hkeys _ List.mem_cons_self
  obtain ⟨b, hb, _⟩ := readObjects_eq_ok.mp (h.answered _ List.mem_cons_self)
  have hasc := ObjectReading.ascending hcap h hkeys
  refine ⟨?_, hasc, ?_, ?_, ?_, exists_objectReading hcap hkey hb none⟩
  · intro e' place hc
    obtain ⟨b', hb'⟩ := Option.isSome_iff_exists.mp hc
    refine ⟨_, readObjects_eq_ok.mpr ⟨b', hb', rfl⟩, fun htruncated => ?_⟩
    obtain ⟨_, x, _, _, _, hmarker, _⟩ := Page.cut_truncated hcap htruncated
    exact ⟨x.mark, hmarker⟩
  · intro key hu hlive
    apply countP_eq_one_of_ascending hasc (fun i hi hc => ObjectReading.mark_of_covers h hi hc)
    exact ObjectReading.exists_covers hcap h hkeys hu hlive (.inl rfl)
  · intro v hv
    refine ⟨Page.splits_iff.mpr ⟨rfl, rfl⟩, ?_, fun key head hrow => ObjectReading.reported_row he h hv hrow⟩
    obtain ⟨b', _, hpage⟩ := readObjects_eq_ok.mp (h.answered v hv)
    rw [← Page.length_items, hpage]
    exact Page.length_cut_le cap _
  · intro hsame n whole hwhole hfinal
    rw [ObjectReading.flatMap_unchanged hcap h hkeys (fun v hv => (hsame v hv).trans hb)]
    exact (readObjects_final hb hwhole (resumeObjects_eq_none.mpr hfinal)).symm

def threeKeys : Engine :=
  ((fresh {} 0).run [.createBucket "b", .putObject "b" "a/1" [] {}, .putObject "b" "a/2" [] {},
    .putObject "b" "c" [] {}]).2

theorem objects_read_while_deleting :
    ∃ visits, ObjectReading "b" none (some "/") 1 threeKeys none visits ∧
      (visits.flatMap (fun v => v.page.items)).map Item.mark = ["a/", "c"] ∧
      (visits.flatMap (fun v => v.page.items)).countP (Item.covers "" "/" "a/2") = 1 := by
  obtain ⟨p, hp, hmore, hpmarks⟩ : ∃ page, readObjects "b" none (some "/") 1 threeKeys none = .ok page ∧
      resumeObjects page = some (some "a/") ∧ page.items.map Item.mark = ["a/"] :=
    ⟨_, rfl, by decide, by decide⟩
  obtain ⟨q, hq, hfinal, hqmarks⟩ : ∃ page,
      readObjects "b" none (some "/") 1 (threeKeys.run [.deleteObject "b" "a/1"]).2 (some "a/") = .ok page ∧
      resumeObjects page = none ∧ page.items.map Item.mark = ["c"] :=
    ⟨_, rfl, by decide, by decide⟩
  have hreading : ObjectReading "b" none (some "/") 1 threeKeys none
      [⟨threeKeys, none, p⟩, ⟨(threeKeys.run [.deleteObject "b" "a/1"]).2, some "a/", q⟩] :=
    .turn hp hmore (fun _ _ => trivial) (.last hq hfinal)
  have hlive : ∀ e : Engine, (e.getObject "b" "a/2").toOption.isSome = true →
      ∃ o, e.getObject "b" "a/2" = .ok o := by
    intro e he
    cases ho : e.getObject "b" "a/2" with
    | error cause => rw [ho] at he; cases he
    | ok o => exact ⟨o, rfl⟩
  have hreachable : Reachable threeKeys := (Reachable.fresh {} 0).run _
  refine ⟨_, hreading, by simp [hpmarks, hqmarks], ?_⟩
  refine (objects_read_exactly_once hreachable le_rfl hreading ?_).2.2.1 "a/2" (by decide) ?_
  · simp only [List.forall_mem_cons, List.not_mem_nil, false_imp_iff, implies_true, and_true]
    exact ⟨by decide, by decide⟩
  · simp only [List.forall_mem_cons, List.not_mem_nil, false_imp_iff, implies_true, and_true]
    exact ⟨hlive _ (by decide), hlive _ (by decide)⟩

end Engine

end BucketStore
