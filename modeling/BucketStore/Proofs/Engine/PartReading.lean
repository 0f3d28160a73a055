import BucketStore.Proofs.Engine.Assembly
import BucketStore.Proofs.Engine.Reading
import Mathlib.Data.List.Sort

namespace BucketStore

namespace Upload

variable {u : Upload} {number : UInt32}

theorem putAll_append (u : Upload) (parts parts' : List Part) :
    (u.putAll parts).putAll parts' = u.putAll (parts ++ parts') := (List.foldl_append).symm

theorem part?_putAll_ne_none (h : u.part? number ≠ none) (parts : List Part) :
    (u.putAll parts).part? number ≠ none := by
  induction parts generalizing u with
  | nil => exact h
  | cons p parts ih =>
      refine ih ?_
      rw [part?_put]
      split
      · exact Option.some_ne_none p
      · exact h

end Upload

namespace Engine

variable {e : Engine} {name key id : String} {cap : Nat} {limit : Option Nat} {place next : Option UInt32}
  {page : PartPage} {u w : Upload} {r : Request} {number : UInt32} {visits : List (Visit (Option UInt32) PartPage)}

def readParts (name key id : String) (cap : Nat) (e : Engine) (marker : Option UInt32) : Except StoreError PartPage :=
  e.listParts name key id marker (some cap)

def resumeParts (p : PartPage) : Option (Option UInt32) := if p.truncated then some p.nextMarker else none

/-- Parts are read page by page, and any requests come in between that do not begin an upload of that ID. -/
abbrev PartReading (name key id : String) (cap : Nat) :
    Engine → Option UInt32 → List (Visit (Option UInt32) PartPage) → Prop :=
  Reading (readParts name key id cap) resumeParts (fun r => r.begun? ≠ some id)

theorem resumeParts_eq_none : resumeParts page = none ↔ page.truncated = false := by
  rw [resumeParts]
  cases page.truncated <;> simp

theorem resumeParts_eq_some : resumeParts page = some next ↔ page.truncated = true ∧ next = page.nextMarker := by
  rw [resumeParts]
  cases page.truncated <;> simp [eq_comm]

theorem listParts_eq_ok : e.listParts name key id place limit = .ok page ↔
    ∃ u, e.upload? name id = some u ∧ u.key = key ∧ page = u.listParts place (limit.getD e.settings.maxParts) := by
  rw [listParts, bind_eq_ok]
  constructor
  · rintro ⟨⟨b, u⟩, hs, h⟩
    obtain ⟨hu, hkey⟩ := upload?_of_session hs
    exact ⟨u, hu, hkey, (Except.ok.inj h).symm⟩
  · rintro ⟨u, hu, rfl, rfl⟩
    obtain ⟨b, hb, hu⟩ := bucket_of_upload? hu
    exact ⟨(b, u), session_eq_ok.mpr ⟨hb, hu⟩, rfl⟩

theorem Reachable.numbered (he : Reachable e) (hu : e.upload? name id = some u) : u.Numbered := by
  obtain ⟨b, hb, hfind⟩ := Option.bind_eq_some_iff.mp hu
  exact ((he.sessions_filed name b hb).uploads u (List.mem_of_find?_eq_some hfind)).2.numbered

theorem Reachable.exists_page (he : Reachable e) (hu : e.upload? name id = some u) (place : Option UInt32)
    (limit : Option Nat) : ∃ page, e.listParts name u.key id place limit = .ok page ∧
      u.Shows place (limit.getD e.settings.maxParts) page :=
  ⟨_, listParts_eq_ok.mpr ⟨u, hu, rfl, rfl⟩, (he.numbered hu).shows_listParts _ _⟩

theorem readParts_shows (he : Reachable e) (answer : readParts name key id cap e place = .ok page) :
    ∃ u, e.upload? name id = some u ∧ u.Shows place cap page := by
  obtain ⟨u, hu, _, rfl⟩ := listParts_eq_ok.mp answer
  exact ⟨u, hu, (he.numbered hu).shows_listParts _ _⟩

theorem readParts_turn (hcap : 1 ≤ cap) (he : Reachable e) (answer : readParts name key id cap e place = .ok page)
    (more : resumeParts page = some next) : ∃ p ∈ page.parts, next = some p.number ∧ PastMarker place p.number ∧
      ∀ q ∈ page.parts, q.number ≤ p.number := by
  obtain ⟨u, _, hshows⟩ := readParts_shows he answer
  obtain ⟨htruncated, rfl⟩ := resumeParts_eq_some.mp more
  obtain ⟨p, hp, hmarker, hle⟩ := hshows.exists_next hcap htruncated
  exact ⟨p, hp, hmarker, (hshows.stored p hp).2, hle⟩

theorem exists_putAll_of_step (hnew : r.begun? ≠ some id) (hw : (e.step r).2.upload? name id = some w) :
    ∃ u parts, e.upload? name id = some u ∧ w = u.putAll parts := by
  rcases step_cases e r with ⟨cause, hstep⟩ | ⟨reply, e', hstep, heffect⟩
  · rw [hstep] at hw
    exact ⟨w, [], hw, rfl⟩
  · rcases heffect.upload?_cases hnew name with hgone | hsame | ⟨_, number, body, u, rfl, hu, rfl⟩
    · rw [hstep, hgone] at hw
      cases hw
    · rw [hstep, hsame] at hw
      exact ⟨w, [], hw, rfl⟩
    · rw [uploadPart_upload? hu] at hw
      exact ⟨u, [Part.ofBody number body], hu, (Option.some.inj hw).symm⟩

namespace PartReading

theorem reachable (h : PartReading name key id cap e place visits) (he : Reachable e) :
    ∀ v ∈ visits, Reachable v.engine := h.forall_engines (fun _ r _ he => he.step r) he

theorem grown (h : PartReading name key id cap e place visits) (he : Reachable e) (hu : e.upload? name id = some u) :
    ∀ v ∈ visits, ∃ parts, v.engine.upload? name id = some (u.putAll parts) ∧
      (u.putAll parts).Shows v.place cap v.page := by
  have hgrown : ∀ v ∈ visits, ∀ w, v.engine.upload? name id = some w → ∃ parts, w = u.putAll parts := by
    apply h.forall_engines (P := fun e => ∀ w, e.upload? name id = some w → ∃ parts, w = u.putAll parts)
    · intro e r hnew hbefore w hw
      obtain ⟨w', parts', hw', rfl⟩ := exists_putAll_of_step hnew hw
      obtain ⟨parts, rfl⟩ := hbefore w' hw'
      exact ⟨parts ++ parts', Upload.putAll_append u parts parts'⟩
    · exact fun w hw => ⟨[], Option.some.inj (hw.symm.trans hu)⟩
  intro v hv
  obtain ⟨w, hw, hshows⟩ := readParts_shows (h.reachable he v hv) (h.answered v hv)
  obtain ⟨parts, rfl⟩ := hgrown v hv w hw
  exact ⟨parts, hw, hshows⟩

theorem ascending (hcap : 1 ≤ cap) (h : PartReading name key id cap e place visits) (he : Reachable e) :
    (visits.flatMap (fun v => v.page.parts)).Pairwise (fun p q => p.number < q.number) := by
  refine (h.pairwise PartPage.parts _ (fun marker p => PastMarker marker p.number) Reachable ?_ ?_
    (h.reachable he)).1
  · intro e place page he answer
    obtain ⟨u, _, hshows⟩ := readParts_shows he answer
    exact ⟨hshows.ascending, fun p hp => (hshows.stored p hp).2⟩
  · intro e place page next he answer more p hp
    obtain ⟨last, _, rfl, hpast, hle⟩ := readParts_turn hcap he answer more
    have hlt : last.number < p.number := hp _ rfl
    exact ⟨hpast.trans hlt, fun q hq => Std.lt_of_le_of_lt (hle q hq) hlt⟩

theorem exists_number (hcap : 1 ≤ cap) (h : PartReading name key id cap e none visits) (he : Reachable e)
    (hu : e.upload? name id = some u) (hstored : u.part? number ≠ none) :
    ∃ p ∈ visits.flatMap (fun v => v.page.parts), p.number = number := by
  apply h.exists_mem PartPage.parts _ (fun marker => PastMarker marker number)
    (fun e => Reachable e ∧ ∀ w, e.upload? name id = some w → w.part? number ≠ none)
  · rintro e place page ⟨he, hS⟩ hpast answer final
    obtain ⟨w, hw, hshows⟩ := readParts_shows he answer
    refine List.mem_map.mp (not_not.mp (fun habsent => ?_))
    have htruncated := hshows.truncated_iff.mpr ⟨number, hS w hw, hpast, habsent⟩
    rw [resumeParts_eq_none.mp final] at htruncated
    cases htruncated
  · rintro e place page next ⟨he, hS⟩ hpast answer more
    obtain ⟨w, hw, hshows⟩ := readParts_shows he answer
    obtain ⟨last, hlast, rfl, _, _⟩ := readParts_turn hcap he answer more
    refine (hshows.first number (hS w hw) hpast).imp List.mem_map.mp (fun hlater => ?_)
    rintro m ⟨rfl⟩
    exact hlater.2 last hlast
  · intro v hv
    obtain ⟨parts, hw, _⟩ := h.grown he hu v hv
    refine ⟨h.reachable he v hv, fun w hw' => ?_⟩
    obtain rfl := Option.some.inj (hw.symm.trans hw')
    exact Upload.part?_putAll_ne_none hstored parts
  · exact nofun

theorem flatMap_unchanged (hcap : 1 ≤ cap) (h : PartReading name key id cap e none visits) (he : Reachable e)
    (hu : e.upload? name id = some u) (hsame : ∀ v ∈ visits, v.engine.upload? name id = some u) :
    visits.flatMap (fun v => v.page.parts) = u.parts.values := by
  have hnumbered := he.numbered hu
  have hstored : ∀ p ∈ visits.flatMap (fun v => v.page.parts), u.part? p.number = some p := by
    intro p hp
    obtain ⟨v, hv, hp⟩ := List.mem_flatMap.mp hp
    obtain ⟨w, hw, hshows⟩ := readParts_shows (h.reachable he v hv) (h.answered v hv)
    obtain rfl := Option.some.inj ((hsame v hv).symm.trans hw)
    exact (hshows.stored p hp).1
  have hmem : ∀ p, p ∈ visits.flatMap (fun v => v.page.parts) ↔ p ∈ u.parts.values := by
    intro p
    rw [hnumbered.mem_values_iff]
    refine ⟨hstored p, fun hp => ?_⟩
    obtain ⟨q, hq, hnumber⟩ := h.exists_number hcap he hu (Option.ne_none_iff_exists'.mpr ⟨p, hp⟩)
    have hq' := hstored q hq
    rw [hnumber, hp] at hq'
    rwa [Option.some.inj hq']
  have hasymm : Std.Asymm (fun p q : Part => p.number < q.number) := ⟨fun _ _ => UInt32.lt_asymm⟩
  exact (h.ascending hcap he).eq_of_mem_iff hnumbered.values_ascending hmem

end PartReading

theorem exists_partReading (hcap : 1 ≤ cap) (he : Reachable e) (hu : e.upload? name id = some u)
    (place : Option UInt32) :
    ∃ visits, PartReading name u.key id cap e place visits ∧ ∀ v ∈ visits, v.engine = e := by
  apply Reading.exists_of_decreasing _ (fun _ => True) numbersPast
  · intro place _
    obtain ⟨page, answer, _⟩ := he.exists_page hu place (some cap)
    refine ⟨page, answer, fun next more => ⟨trivial, ?_⟩⟩
    obtain ⟨p, _, rfl, hpast, _⟩ := readParts_turn hcap he answer more
    exact numbersPast_lt hpast
  · exact trivial

theorem parts_not_endless {run : Nat → Visit (Option UInt32) PartPage} (hcap : 1 ≤ cap)
    (h : Endless (readParts name key id cap) resumeParts (fun _ => True) run) : ¬ Reachable (run 0).engine := by
  intro he
  have hturn : ∀ e place page next, Reachable e → True → readParts name key id cap e place = .ok page →
      resumeParts page = some next → True ∧ numbersPast next < numbersPast place := by
    intro e place page next he _ answer more
    obtain ⟨p, _, rfl, hpast, _⟩ := readParts_turn hcap he answer more
    exact ⟨trivial, numbersPast_lt hpast⟩
  obtain ⟨i, hi⟩ := h.exists_not_of_decreasing Reachable (fun _ => True) numbersPast hturn trivial
  exact hi (h.forall_engines (fun _ r _ he => he.step r) he i)

theorem run_uploadParts (hu : e.upload? name id = some u) (calls : List (UInt32 × List UInt8)) :
    (e.run (calls.map (fun c => .uploadPart name u.key id c.1 c.2))).2.upload? name id = some (u.receive calls) := by
  induction calls generalizing e u with
  | nil => exact hu
  | cons c calls ih => exact ih (uploadPart_upload? hu c.1 c.2)

/-- Whatever happens between the pages, as long as no upload is begun under its ID, a client reads the parts of an
upload exactly once, each as it is stored when its page is made, and does not read for ever. Uploading parts keeps
every page available. -/
theorem parts_read_exactly_once (he : Reachable e) (hu : e.upload? name id = some u) :
    (∀ calls e', (e.run (calls.map (fun c => .uploadPart name u.key id c.1 c.2))).2 = e' →
      ∀ marker (limit : Option Nat), ∃ page, e'.listParts name u.key id marker limit = .ok page ∧
        (u.receive calls).Shows marker (limit.getD e'.settings.maxParts) page) ∧
    ∀ cap, 1 ≤ cap →
      (∀ visits, PartReading name u.key id cap e none visits →
        (visits.flatMap (fun v => v.page.parts)).Pairwise (fun p q => p.number < q.number) ∧
        (∀ v ∈ visits, ∃ parts, v.engine.upload? name id = some (u.putAll parts) ∧
          (u.putAll parts).Shows v.place cap v.page) ∧
        (∀ number, u.part? number ≠ none →
          (visits.flatMap (fun v => v.page.parts)).countP (fun p => p.number = number) = 1) ∧
        ((∀ v ∈ visits, v.engine.upload? name id = some u) →
          visits.flatMap (fun v => v.page.parts) = u.parts.values)) ∧
      (∀ run, Endless (readParts name u.key id cap) resumeParts (fun _ => True) run → (run 0).engine ≠ e) ∧
      ∃ visits, PartReading name u.key id cap e none visits ∧ ∀ v ∈ visits, v.engine = e := by
  refine ⟨?_, fun cap hcap => ⟨fun visits h => ⟨h.ascending hcap he, h.grown he hu, ?_, ?_⟩, ?_, ?_⟩⟩
  · rintro calls _ rfl marker limit
    have hpage := (he.run _).exists_page (run_uploadParts hu calls) marker limit
    rwa [Upload.receive_key] at hpage
  · intro number hstored
    have hread := h.exists_number hcap he hu hstored
    refine countP_eq_one_of_pairwise (h.ascending hcap he) (fun p _ q _ hp hq hlt => ?_) (by simpa using hread)
    rw [of_decide_eq_true hp, of_decide_eq_true hq] at hlt
    exact UInt32.lt_irrefl number hlt
  · exact fun hsame => h.flatMap_unchanged hcap he hu hsame
  · rintro run h rfl
    exact parts_not_endless hcap h he
  · exact exists_partReading hcap he hu none

def fiveAndNine : Engine :=
  ((fresh {} 0).run [.createBucket "b", .createUpload "b" "k" "u" {}, .uploadPart "b" "k" "u" 9 [9],
    .uploadPart "b" "k" "u" 5 [5]]).2

theorem parts_read_while_uploading :
    ∃ visits, PartReading "b" "k" "u" 1 fiveAndNine none visits ∧
      (visits.flatMap (fun v => v.page.parts)).map (fun p => (p.number, p.body)) = [(5, [5]), (7, [7]), (9, [1])] ∧
      (visits.flatMap (fun v => v.page.parts)).countP (fun p => p.number = 9) = 1 := by
  let later : Engine := (fiveAndNine.run [.uploadPart "b" "k" "u" 3 [3], .uploadPart "b" "k" "u" 7 [7],
    .uploadPart "b" "k" "u" 9 [1]]).2
  obtain ⟨p, hp, hpmore, hpparts⟩ : ∃ page, readParts "b" "k" "u" 1 fiveAndNine none = .ok page ∧
      resumeParts page = some (some 5) ∧ page.parts.map (fun p => (p.number, p.body)) = [(5, [5])] :=
    ⟨_, rfl, by decide, by decide⟩
  obtain ⟨q, hq, hqmore, hqparts⟩ : ∃ page, readParts "b" "k" "u" 1 later (some 5) = .ok page ∧
      resumeParts page = some (some 7) ∧ page.parts.map (fun p => (p.number, p.body)) = [(7, [7])] :=
    ⟨_, rfl, by decide, by decide⟩
  obtain ⟨r, hr, hrfinal, hrparts⟩ : ∃ page, readParts "b" "k" "u" 1 later (some 7) = .ok page ∧
      resumeParts page = none ∧ page.parts.map (fun p => (p.number, p.body)) = [(9, [1])] :=
    ⟨_, rfl, by decide, by decide⟩
  have hnone : ∀ r ∈ ([] : List Request), r.begun? ≠ some "u" := by simp
  have hreading : PartReading "b" "k" "u" 1 fiveAndNine none
      [⟨fiveAndNine, none, p⟩, ⟨later, some 5, q⟩, ⟨later, some 7, r⟩] :=
    .turn hp hpmore (by decide) (.turn hq hqmore hnone (.last hr hrfinal))
  have hreachable : Reachable fiveAndNine := (Reachable.fresh {} 0).run _
  obtain ⟨u, hu, hkey, hstored⟩ : ∃ u, fiveAndNine.upload? "b" "u" = some u ∧ u.key = "k" ∧ u.part? 9 ≠ none :=
    ⟨_, rfl, rfl, by decide⟩
  obtain ⟨_, hpages⟩ := parts_read_exactly_once hreachable hu
  rw [hkey] at hpages
  obtain ⟨_, _, honce, _⟩ := (hpages 1 le_rfl).1 _ hreading
  exact ⟨_, hreading, by simp [hpparts, hqparts, hrparts], honce 9 hstored⟩

end Engine

end BucketStore
