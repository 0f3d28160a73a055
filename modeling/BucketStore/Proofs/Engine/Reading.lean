import BucketStore.Proofs.Engine.Invariant

namespace BucketStore.Engine

structure Visit (Place Page : Type) where
  engine : Engine
  place : Place
  page : Page

variable {Place Page ι : Type} {read : Engine → Place → Except StoreError Page}
  {resume : Page → Option Place} {between : Request → Prop}

/-- A client reads a listing to its end. It goes on where each page says, until one says nothing,
and requests that satisfy `between` come in after each page. -/
inductive Reading (read : Engine → Place → Except StoreError Page) (resume : Page → Option Place)
    (between : Request → Prop) : Engine → Place → List (Visit Place Page) → Prop
  | last {e place page} (answer : read e place = .ok page) (final : resume page = none) :
      Reading read resume between e place [⟨e, place, page⟩]
  | turn {e place page next rs visits} (answer : read e place = .ok page)
      (more : resume page = some next) (allowed : ∀ r ∈ rs, between r)
      (rest : Reading read resume between (e.run rs).2 next visits) :
      Reading read resume between e place (⟨e, place, page⟩ :: visits)

/-- A client never comes to the end: each of its pages, one for every number, says where to go on. -/
structure Endless (read : Engine → Place → Except StoreError Page) (resume : Page → Option Place)
    (between : Request → Prop) (run : Nat → Visit Place Page) : Prop where
  answer : ∀ i, read (run i).engine (run i).place = .ok (run i).page
  more : ∀ i, resume (run i).page = some (run (i + 1)).place
  later : ∀ i, ∃ rs, (∀ r ∈ rs, between r) ∧ (run (i + 1)).engine = ((run i).engine.run rs).2

theorem countP_eq_one_of_pairwise {R : ι → ι → Prop} {l : List ι} {p : ι → Bool} (h : l.Pairwise R)
    (hunrelated : ∀ i ∈ l, ∀ j ∈ l, p i = true → p j = true → ¬ R i j) (hex : ∃ i ∈ l, p i = true) :
    l.countP p = 1 := by
  obtain ⟨i, hi, hp⟩ := hex
  obtain ⟨front, back, rfl⟩ := List.append_of_mem hi
  obtain ⟨_, hback, hcross⟩ := List.pairwise_append.mp h
  have hfront : front.countP p = 0 := List.countP_eq_zero.mpr (fun j hj hpj =>
    hunrelated j (List.mem_append_left _ hj) i hi hpj hp (hcross j hj i List.mem_cons_self))
  have hrest : back.countP p = 0 := List.countP_eq_zero.mpr (fun j hj hpj =>
    hunrelated i hi j (List.mem_append_right _ (List.mem_cons_of_mem _ hj)) hp hpj
      ((List.pairwise_cons.mp hback).1 j hj))
  rw [List.countP_append, List.countP_cons_of_pos hp, hfront, hrest]

namespace Reading

variable {e : Engine} {place : Place} {visits : List (Visit Place Page)}

theorem run_preserves {P : Engine → Prop} (step : ∀ e r, between r → P e → P (e.step r).2)
    {rs : List Request} (allowed : ∀ r ∈ rs, between r) (he : P e) : P (e.run rs).2 := by
  induction rs generalizing e with
  | nil => exact he
  | cons r rs ih =>
      exact ih (fun s hs => allowed s (List.mem_cons_of_mem _ hs))
        (step e r (allowed r List.mem_cons_self) he)

theorem forall_engines {P : Engine → Prop} (step : ∀ e r, between r → P e → P (e.step r).2)
    (h : Reading read resume between e place visits) (he : P e) : ∀ v ∈ visits, P v.engine := by
  induction h with
  | last answer final => simpa using he
  | turn answer more allowed rest ih =>
      exact List.forall_mem_cons.mpr ⟨he, ih (run_preserves step allowed he)⟩

theorem answered (h : Reading read resume between e place visits) :
    ∀ v ∈ visits, read v.engine v.place = .ok v.page := by
  induction h with
  | last answer final => simpa using answer
  | turn answer more allowed rest ih => exact List.forall_mem_cons.mpr ⟨answer, ih⟩

theorem head (h : Reading read resume between e place visits) :
    ∃ page later, visits = ⟨e, place, page⟩ :: later := by
  cases h with
  | last => exact ⟨_, _, rfl⟩
  | turn => exact ⟨_, _, rfl⟩

theorem suffix {before after : List (Visit Place Page)} {u : Visit Place Page}
    (h : Reading read resume between e place (before ++ u :: after)) :
    Reading read resume between u.engine u.place (u :: after) := by
  induction before generalizing e place with
  | nil =>
      obtain ⟨page, later, heq⟩ := h.head
      obtain ⟨rfl, rfl⟩ := List.cons.inj heq
      exact h
  | cons w before ih =>
      rw [List.cons_append] at h
      generalize hrest : before ++ u :: after = rest at h
      cases h with
      | last => exact absurd hrest (by simp)
      | turn answer more allowed rest => exact ih (hrest ▸ rest)

theorem flatMap_items (items : Page → List ι) (ahead : Place → List ι) (S : Engine → Prop) (P : Place → Prop)
    (final : ∀ e place page, S e → P place → read e place = .ok page → resume page = none →
      items page = ahead place)
    (turn : ∀ e place page next, S e → P place → read e place = .ok page → resume page = some next →
      P next ∧ items page ++ ahead next = ahead place)
    (h : Reading read resume between e place visits) (hS : ∀ v ∈ visits, S v.engine) (hP : P place) :
    visits.flatMap (fun v => items v.page) = ahead place := by
  induction h with
  | last answer hfinal =>
      rw [List.flatMap_singleton]
      exact final _ _ _ (hS _ List.mem_cons_self) hP answer hfinal
  | turn answer more allowed rest ih =>
      obtain ⟨hP', hsplit⟩ := turn _ _ _ _ (hS _ List.mem_cons_self) hP answer more
      rw [List.flatMap_cons, ih (fun v hv => hS v (List.mem_cons_of_mem _ hv)) hP', hsplit]

/-- If every page is in order and lies past its place, and goes on where all before is left behind, then the pages
are in order one after the other. -/
theorem pairwise (items : Page → List ι) (R : ι → ι → Prop) (past : Place → ι → Prop) (S : Engine → Prop)
    (here : ∀ e place page, S e → read e place = .ok page →
      (items page).Pairwise R ∧ ∀ i ∈ items page, past place i)
    (turn : ∀ e place page next, S e → read e place = .ok page → resume page = some next → ∀ i, past next i →
      past place i ∧ ∀ j ∈ items page, R j i)
    (h : Reading read resume between e place visits) (hS : ∀ v ∈ visits, S v.engine) :
    (visits.flatMap (fun v => items v.page)).Pairwise R ∧
      ∀ i ∈ visits.flatMap (fun v => items v.page), past place i := by
  induction h with
  | last answer final =>
      rw [List.flatMap_singleton]
      exact here _ _ _ (hS _ List.mem_cons_self) answer
  | turn answer more allowed rest ih =>
      obtain ⟨hhere, hS⟩ := List.forall_mem_cons.mp hS
      obtain ⟨hasc, hpast⟩ := here _ _ _ hhere answer
      obtain ⟨hasc', hpast'⟩ := ih hS
      have hturn := turn _ _ _ _ hhere answer more
      rw [List.flatMap_cons, List.pairwise_append]
      exact ⟨⟨hasc, hasc', fun i hi j hj => (hturn j (hpast' j hj)).2 i hi⟩,
        List.forall_mem_append.mpr ⟨hpast, fun i hi => (hturn i (hpast' i hi)).1⟩⟩

/-- What stays ahead until it is found is found before the end. -/
theorem exists_mem (items : Page → List ι) (good : ι → Prop) (ahead : Place → Prop) (S : Engine → Prop)
    (final : ∀ e place page, S e → ahead place → read e place = .ok page → resume page = none →
      ∃ i ∈ items page, good i)
    (turn : ∀ e place page next, S e → ahead place → read e place = .ok page → resume page = some next →
      (∃ i ∈ items page, good i) ∨ ahead next)
    (h : Reading read resume between e place visits) (hS : ∀ v ∈ visits, S v.engine) (hahead : ahead place) :
    ∃ i ∈ visits.flatMap (fun v => items v.page), good i := by
  induction h with
  | last answer hfinal =>
      rw [List.flatMap_singleton]
      exact final _ _ _ (hS _ List.mem_cons_self) hahead answer hfinal
  | turn answer more allowed rest ih =>
      obtain ⟨hhere, hS⟩ := List.forall_mem_cons.mp hS
      rw [List.flatMap_cons]
      rcases turn _ _ _ _ hhere hahead answer more with ⟨i, hi, hgood⟩ | hahead'
      · exact ⟨i, List.mem_append_left _ hi, hgood⟩
      · obtain ⟨i, hi, hgood⟩ := ih hS hahead'
        exact ⟨i, List.mem_append_right _ hi, hgood⟩

theorem exists_of_decreasing (between : Request → Prop) (P : Place → Prop) (left : Place → Nat)
    (h : ∀ place, P place → ∃ page, read e place = .ok page ∧
      ∀ next, resume page = some next → P next ∧ left next < left place)
    (hplace : P place) :
    ∃ visits, Reading read resume between e place visits ∧ ∀ v ∈ visits, v.engine = e := by
  induction hn : left place using Nat.strong_induction_on generalizing place with
  | _ n ih =>
      obtain ⟨page, answer, hnext⟩ := h place hplace
      cases hr : resume page with
      | none => exact ⟨_, .last answer hr, by simp⟩
      | some next =>
          obtain ⟨hP, hlt⟩ := hnext next hr
          obtain ⟨visits, hreading, hsame⟩ := ih (left next) (hn ▸ hlt) hP rfl
          have hnone : ∀ r ∈ ([] : List Request), between r := by simp
          exact ⟨_, .turn answer hr hnone hreading, List.forall_mem_cons.mpr ⟨rfl, hsame⟩⟩

end Reading

namespace Endless

variable {run : Nat → Visit Place Page}

theorem forall_engines {P : Engine → Prop} (step : ∀ e r, between r → P e → P (e.step r).2)
    (h : Endless read resume between run) (hP : P (run 0).engine) (i : Nat) : P (run i).engine := by
  induction i with
  | zero => exact hP
  | succ i ih =>
      obtain ⟨rs, allowed, hengine⟩ := h.later i
      rw [hengine]
      exact Reading.run_preserves step allowed ih

theorem exists_not_of_decreasing (h : Endless read resume between run) (S : Engine → Prop) (P : Place → Prop)
    (left : Place → Nat)
    (turn : ∀ e place page next, S e → P place → read e place = .ok page → resume page = some next →
      P next ∧ left next < left place)
    (hP : P (run 0).place) : ∃ i, ¬ S (run i).engine := by
  by_contra hall
  have hS : ∀ i, S (run i).engine := fun i => not_not.mp (fun hi => hall ⟨i, hi⟩)
  have hleft : ∀ i, P (run i).place ∧ left (run i).place + i ≤ left (run 0).place := by
    intro i
    induction i with
    | zero => exact ⟨hP, le_rfl⟩
    | succ i ih =>
        obtain ⟨hP', hless⟩ := turn _ _ _ _ (hS i) ih.1 (h.answer i) (h.more i)
        exact ⟨hP', by omega⟩
  have hbound := (hleft (left (run 0).place + 1)).2
  omega

theorem no_reading {e : Engine} (h : Endless read resume between run) (hsame : ∀ i, (run i).engine = e) :
    ¬ ∃ visits, Reading read resume between e (run 0).place visits ∧ ∀ v ∈ visits, v.engine = e := by
  have hpage : ∀ i page, read e (run i).place = .ok page → page = (run i).page := by
    intro i page answer
    rw [← hsame i, h.answer i] at answer
    exact (Except.ok.inj answer).symm
  have hnever : ∀ e' place visits, Reading read resume between e' place visits →
      (∀ v ∈ visits, v.engine = e) → ∀ i, place ≠ (run i).place := by
    intro e' place visits hreading hengines
    induction hreading with
    | last answer final =>
        rintro i rfl
        obtain rfl := hengines _ List.mem_cons_self
        rw [hpage i _ answer, h.more i] at final
        cases final
    | turn answer more allowed rest ih =>
        rintro i rfl
        obtain ⟨hhere, hlater⟩ := List.forall_mem_cons.mp hengines
        obtain rfl := hhere
        rw [hpage i _ answer, h.more i] at more
        exact ih hlater (i + 1) (Option.some.inj more).symm
  rintro ⟨visits, hreading, hengines⟩
  exact hnever e _ visits hreading hengines 0 rfl

end Endless

end BucketStore.Engine
