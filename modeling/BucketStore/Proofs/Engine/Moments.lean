import BucketStore.Proofs.Engine.Invariant

namespace BucketStore

/-- A request at its place in a run, with the engine that it finds. -/
structure Moment where
  time : Nat
  engine : Engine
  request : Request

namespace Moment

def outcome (m : Moment) : Except StoreError Reply := (m.engine.step m.request).1

def after (m : Moment) : Engine := (m.engine.step m.request).2

def succeeds (m : Moment) : Bool := m.outcome.toBool

theorem cases_effect (m : Moment) :
    (∃ cause, m.outcome = .error cause ∧ m.after = m.engine) ∨
      ∃ reply, m.outcome = .ok reply ∧ Engine.Effect m.engine m.request reply m.after := by
  rw [outcome, after]
  rcases Engine.step_cases m.engine m.request with ⟨cause, h⟩ | ⟨reply, e', h, heffect⟩
  · exact .inl ⟨cause, by rw [h], by rw [h]⟩
  · exact .inr ⟨reply, by rw [h], by rwa [h]⟩

theorem succeeds_of_ok {m : Moment} {reply : Reply} (h : m.outcome = .ok reply) : m.succeeds = true := by
  rw [succeeds, h]
  rfl

theorem not_succeeds_of_error {m : Moment} {cause : StoreError} (h : m.outcome = .error cause) :
    m.succeeds = false := by
  rw [succeeds, h]
  rfl

end Moment

namespace Engine

variable {e : Engine} {name key : String} {time : Nat} {rs : List Request} {m : Moment}

def momentsFrom (time : Nat) (e : Engine) : List Request → List Moment
  | [] => []
  | r :: rs => ⟨time, e, r⟩ :: momentsFrom (time + 1) (e.step r).2 rs

def moments (e : Engine) (rs : List Request) : List Moment := momentsFrom 0 e rs

theorem run_append (e : Engine) (rs ss : List Request) : (e.run (rs ++ ss)).2 = ((e.run rs).2.run ss).2 := by
  induction rs generalizing e with
  | nil => rfl
  | cons r rs ih => exact ih (e.step r).2

theorem momentsFrom_split {before after : List Moment} (h : momentsFrom time e rs = before ++ m :: after) :
    ∃ earlier later, rs = earlier ++ m.request :: later ∧ m.engine = (e.run earlier).2 ∧
      before = momentsFrom time e earlier ∧ after = momentsFrom (m.time + 1) m.after later := by
  induction before generalizing time e rs with
  | nil =>
      cases rs with
      | nil => cases h
      | cons r rs =>
          obtain ⟨rfl, rfl⟩ := List.cons.inj h
          exact ⟨[], rs, rfl, rfl, rfl, rfl⟩
  | cons w before ih =>
      cases rs with
      | nil => cases h
      | cons r rs =>
          obtain ⟨rfl, hrest⟩ := List.cons.inj h
          obtain ⟨earlier, later, rfl, hengine, rfl, hafter⟩ := ih hrest
          exact ⟨r :: earlier, later, rfl, hengine, rfl, hafter⟩

theorem le_time (h : m ∈ momentsFrom time e rs) : time ≤ m.time := by
  induction rs generalizing time e with
  | nil => cases h
  | cons r rs ih =>
      rcases List.mem_cons.mp h with rfl | h
      · exact le_rfl
      · exact (Nat.le_succ time).trans (ih h)

theorem times_ascending (time : Nat) (e : Engine) (rs : List Request) :
    (momentsFrom time e rs).Pairwise (fun m m' => m.time < m'.time) := by
  induction rs generalizing time e with
  | nil => exact .nil
  | cons r rs ih => exact .cons (fun m hm => le_time hm) (ih _ _)

/-- The version counter does not start over in this run. -/
def Unwrapped (e : Engine) : List Request → Prop
  | [] => True
  | r :: rs => e.nextVersion ≤ (e.step r).2.nextVersion ∧ Unwrapped (e.step r).2 rs

instance decidableUnwrapped (e : Engine) : (rs : List Request) → Decidable (e.Unwrapped rs)
  | [] => .isTrue trivial
  | r :: rs =>
    have := decidableUnwrapped (e.step r).2 rs
    inferInstanceAs (Decidable (_ ∧ _))

theorem ReachableUnwrapped.run (he : ReachableUnwrapped e) (hrs : e.Unwrapped rs) :
    ReachableUnwrapped (e.run rs).2 := by
  induction rs generalizing e with
  | nil => exact he
  | cons r rs ih => exact ih (.step r he hrs.1) hrs.2

theorem unwrapped_append {ss : List Request} :
    e.Unwrapped (rs ++ ss) ↔ e.Unwrapped rs ∧ (e.run rs).2.Unwrapped ss := by
  induction rs generalizing e with
  | nil => exact ⟨fun h => ⟨trivial, h⟩, And.right⟩
  | cons r rs ih => exact (and_congr_right (fun _ => ih)).trans and_assoc.symm

theorem ReachableUnwrapped.exists_run (he : ReachableUnwrapped e) :
    ∃ settings first rs, (Engine.fresh settings first).Unwrapped rs ∧
      e = ((Engine.fresh settings first).run rs).2 := by
  induction he with
  | fresh settings first => exact ⟨settings, first, [], trivial, rfl⟩
  | @step e r _ hn ih =>
      obtain ⟨settings, first, rs, hrs, rfl⟩ := ih
      refine ⟨settings, first, rs ++ [r], unwrapped_append.mpr ⟨hrs, hn, trivial⟩, ?_⟩
      rw [run_append]
      rfl

theorem mem_moments_reachable (he : ReachableUnwrapped e) (hrs : e.Unwrapped rs)
    (hm : m ∈ momentsFrom time e rs) :
    ReachableUnwrapped m.engine ∧ m.engine.nextVersion ≤ m.after.nextVersion := by
  induction rs generalizing time e with
  | nil => cases hm
  | cons r rs ih =>
      rcases List.mem_cons.mp hm with rfl | hm
      · exact ⟨he, hrs.1⟩
      · exact ih (.step r he hrs.1) hrs.2 hm

theorem ReachableUnwrapped.split {before after : List Moment} (he : ReachableUnwrapped e) (hrs : e.Unwrapped rs)
    (h : momentsFrom time e rs = before ++ m :: after) :
    ∃ later, ReachableUnwrapped m.after ∧ m.after.Unwrapped later ∧ (e.run rs).2 = (m.after.run later).2 ∧
      after = momentsFrom (m.time + 1) m.after later := by
  obtain ⟨earlier, later, rfl, hengine, _, hafter⟩ := momentsFrom_split h
  obtain ⟨hearlier, hn, hlater⟩ := unwrapped_append.mp hrs
  rw [run_append]
  have hm := he.run hearlier
  rw [← hengine] at hn hlater hm ⊢
  exact ⟨later, .step m.request hm hn, hlater, rfl, hafter⟩

def history (e : Engine) (name key : String) : History :=
  match e.buckets.get? name with
  | some b => b.store.history key
  | none => []

theorem history_of_bucket {b : Bucket} (hb : e.buckets.get? name = some b) (key : String) :
    e.history name key = b.store.history key := by
  rw [history, hb]

theorem history_of_absent (hb : e.buckets.get? name = none) (key : String) : e.history name key = [] := by
  rw [history, hb]

theorem history_setBucket (e : Engine) (k : String) (b : Bucket) (name key : String) :
    (e.setBucket k b).history name key = if name = k then b.store.history key else e.history name key := by
  by_cases hk : name = k <;> simp only [history, setBucket, Table.get?_insert, hk, if_true, if_false]

theorem history_erase (e : Engine) (k name key : String) :
    ({ e with buckets := e.buckets.erase k } : Engine).history name key =
      if name = k then [] else e.history name key := by
  by_cases hk : name = k <;> simp only [history, Table.get?_erase, hk, if_true, if_false]

def versioning? (e : Engine) (name : String) : Option Versioning := (e.buckets.get? name).map (·.versioning)

theorem versioning?_of_bucket {b : Bucket} (hb : e.buckets.get? name = some b) :
    e.versioning? name = some b.versioning := by
  rw [versioning?, hb, Option.map_some]

def Configured (e : Engine) (name : String) : Prop := ∃ b, e.buckets.get? name = some b ∧ b.versioning ≠ .unset

end Engine

def Request.removes (name : String) : Request → Bool
  | .deleteBucket b => b = name
  | .reset => true
  | _ => false

def Moment.removes (name : String) (m : Moment) : Bool := m.succeeds && m.request.removes name

namespace Engine

variable {e e' : Engine} {name : String} {time : Nat} {r : Request} {reply : Reply} {rs : List Request}

theorem Effect.configured (h : Effect e r reply e') (hconf : e.Configured name)
    (hkept : r.removes name = false) : e'.Configured name := by
  obtain ⟨b, hb, hne⟩ := hconf
  cases h with
  | read | draw => exact ⟨b, hb, hne⟩
  | reset => cases hkept
  | create k habsent =>
      have hk : name ≠ k := by
        rintro rfl
        rw [hb] at habsent
        cases habsent
      exact ⟨b, by rw [setBucket, Table.get?_insert, if_neg hk, hb], hne⟩
  | delete k =>
      have hk : name ≠ k := by simpa [Request.removes, eq_comm] using hkept
      exact ⟨b, by rw [Table.get?_erase, if_neg hk, hb], hne⟩
  | bucket k c _ _ c' next hc h =>
      by_cases hk : name = k
      · subst hk
        obtain rfl : b = c := Option.some.inj (hb.symm.trans hc)
        refine ⟨c', by rw [setBucket, Table.get?_insert, if_pos rfl], ?_⟩
        cases h with
        | configure _ _ _ _ ht => exact ht
        | _ => exact hne
      · exact ⟨b, by rw [setBucket, Table.get?_insert, if_neg hk, hb], hne⟩

theorem configured_of_mem (hconf : e.Configured name)
    (hkept : ∀ m ∈ momentsFrom time e rs, m.removes name = false) :
    (e.run rs).2.Configured name ∧ ∀ m ∈ momentsFrom time e rs, m.engine.Configured name := by
  induction rs generalizing time e with
  | nil => exact ⟨hconf, fun m hm => by cases hm⟩
  | cons r rs ih =>
      obtain ⟨hhere, hlater⟩ := List.forall_mem_cons.mp hkept
      have hstep : (e.step r).2.Configured name := by
        rcases Moment.cases_effect ⟨time, e, r⟩ with ⟨cause, _, hsame⟩ | ⟨reply, houtcome, heffect⟩
        · exact (show (e.step r).2 = e from hsame).symm ▸ hconf
        · rw [Moment.removes, Moment.succeeds_of_ok houtcome, Bool.true_and] at hhere
          exact heffect.configured hconf hhere
      obtain ⟨hrun, hmem⟩ := ih hstep hlater
      exact ⟨hrun, List.forall_mem_cons.mpr ⟨hconf, hmem⟩⟩

end Engine

end BucketStore
