import BucketStore.Proofs.Engine.Change
import BucketStore.Proofs.Store.Sound

namespace BucketStore

def Bucket.Filed (name : String) (b : Bucket) : Prop :=
  b.name = name ∧ ∀ key, ∀ v ∈ b.store.history key, v.key = key

/-- A bucket has a plain store as long as it is unset, and histories as they should be after that. -/
structure Bucket.Sound (next : UInt64) (b : Bucket) : Prop where
  status : b.versioning = .unset ↔ b.store.isVersioned = false
  store : b.store.Sound next

namespace Bucket

variable {name : String} {n n' : UInt64} {b b' : Bucket}

theorem Change.filed (h : Change name n b b' n') (hb : b.Filed name) : b'.Filed name := by
  have added : ∀ v key, ∀ w ∈ (b.store.add v).history key, w.key = key := by
    intro v key w hw
    rcases ObjectStore.mem_history_add hw with ⟨rfl, rfl⟩ | hw
    · rfl
    · exact hb.2 key w hw
  cases h with
  | configure target hne ht =>
      refine ⟨hb.1, fun key w hw => ?_⟩
      rcases ObjectStore.mem_history_migrate hw with hw | ⟨o, ho, rfl⟩
      · exact hb.2 key w hw
      · exact hb.2 key (.object o) ho
  | put key body metadata => exact ⟨hb.1, added (.object (Object.ofBody key _ body metadata))⟩
  | complete key uploadId choice u parts hu hne hparts => exact ⟨hb.1, added (.object (u.assemble parts _))⟩
  | mark key id _ hdraw => exact ⟨hb.1, added (.marker ⟨key, id⟩)⟩
  | forget key =>
      exact ⟨hb.1, fun k w hw => hb.2 k w ((ObjectStore.history_remove_sublist _ key k).subset hw)⟩
  | drop key id =>
      exact ⟨hb.1, fun k w hw => hb.2 k w ((ObjectStore.history_dropVersion_sublist _ key id k).subset hw)⟩
  | start | upload | abort => exact hb

theorem Change.matched (h : Change name n b b' n') (hb : b.versioning = .unset ↔ b.store.isVersioned = false) :
    b'.versioning = .unset ↔ b'.store.isVersioned = false := by
  cases h with
  | configure target hne ht =>
      exact ⟨fun h => absurd h ht, fun h => by rw [ObjectStore.isVersioned_migrate] at h; cases h⟩
  | put | complete | mark =>
      rw [ObjectStore.isVersioned_add]
      exact hb
  | forget =>
      rw [ObjectStore.isVersioned_remove]
      exact hb
  | drop =>
      rw [ObjectStore.isVersioned_dropVersion]
      exact hb
  | start | upload | abort => exact hb

theorem Change.sound (h : Change name n b b' n') (hn : n ≤ n') (hb : b.Sound n) : b'.Sound n' := by
  refine ⟨h.matched hb.status, ?_⟩
  have added : ∀ v, v.id? = (b.versioning.draw n).1 → n ≤ (b.versioning.draw n).2 →
      (b.store.add v).Sound (b.versioning.draw n).2 :=
    fun v hid hle => hb.store.add hb.status hid hle
  cases h with
  | configure target hne ht => exact hb.store.migrate
  | put key body metadata => exact added (.object (Object.ofBody key _ body metadata)) rfl hn
  | complete key uploadId choice u parts hu hne hparts => exact added (.object (u.assemble parts _)) rfl hn
  | mark key id _ hdraw =>
      obtain rfl : n' = (b.versioning.draw n).2 := by rw [hdraw]
      exact added (.marker ⟨key, id⟩) (by rw [hdraw]; rfl) hn
  | forget key hunset =>
      have hplain := hb.status.mp hunset
      have hstore := hb.store
      cases hs : b.store with
      | versioned s => rw [hs] at hplain; cases hplain
      | plain s =>
          rw [hs] at hstore
          intro k o hget
          simp only [Table.get?_erase] at hget
          split at hget
          · cases hget
          · exact hstore k o hget
  | drop key id => exact hb.store.dropVersion key id
  | start | upload | abort => exact hb.store

end Bucket

namespace Engine

/-- What holds of new buckets and is kept by the changes of a bucket, the counter moving along `R`
at most, holds of all buckets after a change of the engine. -/
theorem Change.forall_buckets {P : String → UInt64 → Bucket → Prop} {R : UInt64 → UInt64 → Prop}
    {e e' : Engine} (h : Change e e') (hR : R e.nextVersion e'.nextVersion)
    (mono : ∀ {name n n' b}, R n n' → P name n b → P name n' b) (fresh : ∀ name n, P name n { name })
    (step : ∀ {name n n' b b'}, Bucket.Change name n b b' n' → R n n' → P name n b → P name n' b')
    (hP : ∀ name b, e.buckets.get? name = some b → P name e.nextVersion b) :
    ∀ name b, e'.buckets.get? name = some b → P name e'.nextVersion b := by
  intro name b hb
  cases h with
  | same => exact hP name b hb
  | create k habsent =>
      simp only [setBucket, Table.get?_insert] at hb
      split at hb
      · rename_i hk
        cases hb
        rw [hk]
        exact fresh k _
      · exact hP name b hb
  | delete k c hc hdead =>
      simp only [Table.get?_erase] at hb
      split at hb
      · cases hb
      · exact hP name b hb
  | bucket k c c' next hc hchange =>
      simp only [setBucket, Table.get?_insert] at hb
      split at hb
      · rename_i hk
        cases hb
        rw [hk]
        exact step hchange hR (hP k c hc)
      · exact mono hR (hP name b hb)
  | draw => exact mono hR (hP name b hb)
  | reset => cases hb

def fresh (settings : Settings) (first : UInt64) : Engine := { settings, nextVersion := first }

/-- The engines that requests lead to from one without buckets. -/
inductive Reachable : Engine → Prop
  | fresh (settings first) : Reachable (fresh settings first)
  | step {e} (r : Request) (h : Reachable e) : Reachable (e.step r).2

/-- The same, while the counter has not started over. That is the one way in which it goes down. -/
inductive ReachableUnwrapped : Engine → Prop
  | fresh (settings first) : ReachableUnwrapped (fresh settings first)
  | step {e} (r : Request) (h : ReachableUnwrapped e)
      (hn : e.nextVersion ≤ (e.step r).2.nextVersion) : ReachableUnwrapped (e.step r).2

def Filed (e : Engine) : Prop := ∀ name b, e.buckets.get? name = some b → b.Filed name

def Sound (e : Engine) : Prop := ∀ name b, e.buckets.get? name = some b → b.Sound e.nextVersion

def Matched (e : Engine) : Prop :=
  ∀ name b, e.buckets.get? name = some b → (b.versioning = .unset ↔ b.store.isVersioned = false)

/-- No version is filed under the empty key, which no marker can name. -/
def NoEmptyKey (name : String) (e : Engine) : Prop :=
  ∀ b, e.buckets.get? name = some b → b.store.history "" = []

instance (name : String) (e : Engine) : Decidable (e.NoEmptyKey name) :=
  decidable_of_iff ((e.buckets.get? name).all (fun b => b.store.history "" = []) = true) (by
    rw [NoEmptyKey]
    cases e.buckets.get? name <;> simp)

theorem fresh_empty (settings : Settings) (first : UInt64) (name : String) :
    (fresh settings first).buckets.get? name = none := rfl

theorem Filed.step {e : Engine} (r : Request) (h : e.Filed) : (e.step r).2.Filed :=
  (step_change e r).forall_buckets (P := fun name _ b => b.Filed name) (R := fun _ _ => True) trivial
    (fun _ hb => hb) (fun _ _ => ⟨rfl, by intro _ _ hv; cases hv⟩) (fun hc _ hb => hc.filed hb) h

theorem Sound.step {e : Engine} (r : Request) (hn : e.nextVersion ≤ (e.step r).2.nextVersion)
    (h : e.Sound) : (e.step r).2.Sound :=
  (step_change e r).forall_buckets (P := fun _ n b => b.Sound n) (R := fun n n' => n ≤ n') hn
    (fun hn hb => ⟨hb.status, hb.store.mono hn⟩)
    (fun _ _ => ⟨⟨fun _ => rfl, fun _ => rfl⟩, fun _ _ hget => by cases hget⟩)
    (fun hc hn hb => hc.sound hn hb) h

theorem Matched.step {e : Engine} (r : Request) (h : e.Matched) : (e.step r).2.Matched :=
  (step_change e r).forall_buckets
    (P := fun _ _ b => b.versioning = .unset ↔ b.store.isVersioned = false) (R := fun _ _ => True) trivial
    (fun _ hb => hb) (fun _ _ => ⟨fun _ => rfl, fun _ => rfl⟩) (fun hc _ hb => hc.matched hb) h

theorem Reachable.filed {e : Engine} (h : Reachable e) : e.Filed := by
  induction h with
  | fresh settings first => intro name b hb; rw [fresh_empty] at hb; cases hb
  | step r _ ih => exact ih.step r

theorem ReachableUnwrapped.sound {e : Engine} (h : ReachableUnwrapped e) : e.Sound := by
  induction h with
  | fresh settings first => intro name b hb; rw [fresh_empty] at hb; cases hb
  | step r _ hn ih => exact ih.step r hn

theorem ReachableUnwrapped.reachable {e : Engine} (h : ReachableUnwrapped e) : Reachable e := by
  induction h with
  | fresh settings first => exact .fresh settings first
  | step r _ _ ih => exact .step r ih

theorem Reachable.run {e : Engine} (h : Reachable e) (rs : List Request) : Reachable (e.run rs).2 := by
  induction rs generalizing e with
  | nil => exact h
  | cons r rs ih => exact ih (.step r h)

end Engine

end BucketStore
