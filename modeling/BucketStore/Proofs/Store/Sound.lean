import BucketStore.Bucket
import BucketStore.Engine
import BucketStore.Proofs.Store.Histories
import BucketStore.Proofs.VersionId
import Mathlib.Data.List.Pairwise

namespace BucketStore

/-- The IDs of versions filed while the counter stands at `next`. -/
def VersionId.Issued (next : UInt64) (id : Option String) : Prop :=
  id = some null ∨ ∃ n, n < next ∧ id = some (ofCounter n)

/-- Whether `v` may stand in front of `w`: an ID drawn later comes first, and one version at most
is null. -/
def Version.NewerThan (v w : Version) : Prop :=
  (v.id? = some VersionId.null → w.id? ≠ some VersionId.null) ∧
    ∀ m n, v.id? = some (VersionId.ofCounter m) → w.id? = some (VersionId.ofCounter n) → n < m

structure History.Sound (next : UInt64) (h : History) : Prop where
  issued : ∀ v ∈ h, VersionId.Issued next v.id?
  ordered : h.Pairwise Version.NewerThan

/-- Objects of a plain store have no ID. In a versioned store every key has a history. -/
def ObjectStore.Sound (next : UInt64) : ObjectStore → Prop
  | plain s => ∀ key o, s.get? key = some o → o.versionId = none
  | versioned s => ∀ key h, s.get? key = some h → h ≠ [] ∧ h.Sound next

namespace History

variable {n n' : UInt64} {h l : History} {v w : Version}

theorem Sound.nil : Sound n [] := ⟨by simp, List.Pairwise.nil⟩

theorem Sound.sublist (hs : h.Sound n) (hl : l.Sublist h) : Sound n l :=
  ⟨fun v hv => hs.issued v (hl.subset hv), hs.ordered.sublist hl⟩

theorem Sound.mono (hs : h.Sound n) (hn : n ≤ n') : h.Sound n' :=
  ⟨fun v hv => (hs.issued v hv).imp id (fun ⟨m, hm, hid⟩ => ⟨m, Std.lt_of_lt_of_le hm hn, hid⟩), hs.ordered⟩

theorem Sound.add_drawn (hs : h.Sound n) (hv : v.id? = some (VersionId.ofCounter n)) (hn : n < n') :
    (h.add v).Sound n' := by
  have hnull : isNull v = false := by
    simp [isNull, hv, VersionId.ofCounter_ne_null]
  rw [add, hnull, if_neg Bool.false_ne_true]
  refine ⟨List.forall_mem_cons.mpr ⟨.inr ⟨n, hn, hv⟩, (hs.mono (Std.le_of_lt hn)).issued⟩,
    List.pairwise_cons.mpr ⟨fun w hw => ⟨fun hc => ?_, fun m k hm hk => ?_⟩, hs.ordered⟩⟩
  · rw [hv] at hc
    exact absurd (Option.some.inj hc) (VersionId.ofCounter_ne_null n)
  · rw [hv] at hm
    obtain rfl := VersionId.ofCounter_injective (Option.some.inj hm)
    rcases hs.issued w hw with hid | ⟨j, hj, hid⟩
    · rw [hk] at hid
      exact absurd (Option.some.inj hid) (VersionId.ofCounter_ne_null k)
    · rw [hk] at hid
      rwa [VersionId.ofCounter_injective (Option.some.inj hid)]

theorem Sound.add_null (hs : h.Sound n) (hv : v.id? = some VersionId.null) : (h.add v).Sound n := by
  have hnull : isNull v = true := by simp [isNull, hv]
  rw [add, hnull, if_pos rfl]
  have hrest := hs.sublist (List.filter_sublist (p := fun w => !isNull w))
  refine ⟨List.forall_mem_cons.mpr ⟨.inl hv, hrest.issued⟩,
    List.pairwise_cons.mpr ⟨fun w hw => ⟨fun _ hw' => ?_, fun m k hm _ => ?_⟩, hrest.ordered⟩⟩
  · have hkept := (List.mem_filter.mp hw).2
    simp [isNull, hw'] at hkept
  · rw [hv] at hm
    exact absurd (Option.some.inj hm).symm (VersionId.ofCounter_ne_null m)

theorem Sound.ids_ne (hs : h.Sound n) (hvw : [v, w].Sublist h) : v.idOrNull ≠ w.idOrNull := by
  have hnewer : v.NewerThan w := List.pairwise_iff_forall_sublist.mp hs.ordered hvw
  have hv := hs.issued v (hvw.subset List.mem_cons_self)
  have hw := hs.issued w (hvw.subset (List.mem_cons_of_mem _ List.mem_cons_self))
  intro heq
  rcases hv with hv | ⟨m, _, hv⟩
  · rcases hw with hw | ⟨k, _, hw⟩
    · exact hnewer.1 hv hw
    · simp only [Version.idOrNull, hv, hw, Option.getD_some] at heq
      exact VersionId.ofCounter_ne_null k heq.symm
  · rcases hw with hw | ⟨k, _, hw⟩
    · simp only [Version.idOrNull, hv, hw, Option.getD_some] at heq
      exact VersionId.ofCounter_ne_null m heq
    · simp only [Version.idOrNull, hv, hw, Option.getD_some] at heq
      obtain rfl := VersionId.ofCounter_injective heq
      exact Std.lt_irrefl (hnewer.2 m m hv hw)

end History

namespace ObjectStore

variable {n n' : UInt64} {s : ObjectStore}

theorem Sound.mono (hs : s.Sound n) (hn : n ≤ n') : s.Sound n' := by
  cases s with
  | plain s => exact hs
  | versioned s => exact fun key h hget => ⟨(hs key h hget).1, (hs key h hget).2.mono hn⟩

theorem Sound.history {s : VersionedStore} (hs : (versioned s).Sound n) (key : String) :
    (s.history key).Sound n := by
  cases hget : s.get? key with
  | none => rw [VersionedStore.history, hget]; exact .nil
  | some h => rw [VersionedStore.history, hget]; exact (hs key h hget).2

theorem Sound.nonempty_of_mem {key : String} {h : History} (hs : s.Sound n) (hm : (key, h) ∈ s.histories) :
    h ≠ [] := by
  cases s with
  | plain s =>
      obtain ⟨_, _, heq⟩ := List.mem_map.mp hm
      cases heq
      exact List.cons_ne_nil _ _
  | versioned s => exact (hs key h (Table.mem_entries.mp hm)).1

theorem Sound.ids_distinct (hs : s.Sound n) (key : String) :
    (s.history key).Pairwise (fun v w => v.idOrNull ≠ w.idOrNull) := by
  cases s with
  | plain s =>
      rw [ObjectStore.history]
      cases s.get? key with
      | none => exact List.Pairwise.nil
      | some o => exact List.pairwise_singleton _ _
  | versioned s =>
      rw [List.pairwise_iff_forall_sublist]
      exact (Sound.history hs key).ids_ne

theorem Sound.history_nodup (hs : s.Sound n) (key : String) : (s.history key).Nodup :=
  (hs.ids_distinct key).imp (fun {a b} hne heq => hne (by rw [heq]))

theorem Sound.eq_of_id {key : String} {v w : Version} (hs : s.Sound n) (hv : v ∈ s.history key)
    (hw : w ∈ s.history key) (hid : v.idOrNull = w.idOrNull) : v = w := by
  by_contra hne
  have hsymm : Std.Symm (fun v w : Version => v.idOrNull ≠ w.idOrNull) := ⟨fun _ _ h => h.symm⟩
  exact (hs.ids_distinct key).forall hv hw hne hid

theorem Sound.insert {s : VersionedStore} {h : History} (hs : (versioned s).Sound n) (key : String)
    (hne : h ≠ []) (hh : h.Sound n) : (versioned (s.insert key h)).Sound n := by
  intro k l hget
  rw [Table.get?_insert] at hget
  split at hget
  · cases hget; exact ⟨hne, hh⟩
  · exact hs k l hget

theorem Sound.erase {s : VersionedStore} (hs : (versioned s).Sound n) (key : String) :
    (versioned (s.erase key)).Sound n := by
  intro k l hget
  rw [Table.get?_erase] at hget
  split at hget
  · cases hget
  · exact hs k l hget

theorem Sound.add {status : Versioning} {v : Version} (hs : s.Sound n)
    (hst : status = .unset ↔ s.isVersioned = false) (hid : v.id? = (status.draw n).1)
    (hn : n ≤ (status.draw n).2) : (s.add v).Sound (status.draw n).2 := by
  cases s with
  | plain s =>
      have hunset : status = .unset := hst.mpr rfl
      subst hunset
      cases v with
      | marker m => cases hid
      | object o =>
          intro key p hget
          simp only [Table.get?_insert] at hget
          split at hget
          · cases hget; exact hid
          · exact hs key p hget
  | versioned s =>
      have hne : (s.history v.key).add v ≠ [] := by
        rw [History.add]
        split <;> exact List.cons_ne_nil _ _
      cases status with
      | unset => exact absurd (hst.mp rfl) (by simp [isVersioned])
      | enabled =>
          have hlt : n < n + 1 := Std.lt_of_le_of_ne hn (by simp)
          exact Sound.insert (s := s) (hs.mono hn) _ hne ((hs.history _).add_drawn hid hlt)
      | suspended => exact Sound.insert (s := s) hs _ hne ((hs.history _).add_null hid)

theorem Sound.dropVersion (hs : s.Sound n) (key id : String) : (s.dropVersion key id).2.Sound n := by
  cases s with
  | plain s =>
      by_cases hnull : id = VersionId.null
      · rw [ObjectStore.dropVersion, if_pos hnull]
        intro k o hget
        rw [Table.get?_erase] at hget
        split at hget
        · cases hget
        · exact hs k o hget
      · rw [ObjectStore.dropVersion, if_neg hnull]
        exact hs
  | versioned s =>
      simp only [ObjectStore.dropVersion, VersionedStore.dropVersion]
      cases s.find? key id with
      | none => exact hs
      | some v =>
          have hsound : ((s.history key).remove id).Sound n := (hs.history key).sublist List.eraseP_sublist
          cases hr : (s.history key).remove id with
          | nil => exact hs.erase key
          | cons w rest =>
              rw [hr] at hsound
              exact hs.insert key (List.cons_ne_nil _ _) hsound

theorem Sound.migrate (hs : s.Sound n) : s.migrate.Sound n := by
  cases s with
  | versioned s => exact hs
  | plain s =>
      intro key h hget
      rw [Table.get?_map] at hget
      obtain ⟨o, _, rfl⟩ := Option.map_eq_some_iff.mp hget
      refine ⟨List.cons_ne_nil _ _, ⟨?_, List.pairwise_singleton _ _⟩⟩
      intro v hv
      rw [List.mem_singleton.mp hv]
      exact .inl rfl

theorem isVersioned_migrate (s : ObjectStore) : s.migrate.isVersioned = true := by
  cases s <;> rfl

theorem isVersioned_add (v : Version) (s : ObjectStore) : (s.add v).isVersioned = s.isVersioned := by
  cases s <;> cases v <;> rfl

theorem isVersioned_remove (key : String) (s : ObjectStore) :
    (s.remove key).2.isVersioned = s.isVersioned := by
  cases s <;> rfl

theorem isVersioned_dropVersion (key id : String) (s : ObjectStore) :
    (s.dropVersion key id).2.isVersioned = s.isVersioned := by
  cases s with
  | plain s =>
      rw [dropVersion]
      split <;> rfl
  | versioned s => rfl

end ObjectStore

theorem VersionedStore.find?_of_mem {n : UInt64} {s : VersionedStore} {key id : String} {v : Version}
    (hs : (ObjectStore.versioned s).Sound n) (hv : v ∈ s.history key) (hid : v.id? = some id) :
    s.find? key id = some v := by
  cases hf : s.find? key id with
  | none => exact absurd (decide_eq_true hid) (List.find?_eq_none.mp hf v hv)
  | some w =>
      rw [find?, History.find?] at hf
      have hidw : w.id? = some id := by simpa using List.find?_some hf
      have heq : w = v := hs.eq_of_id (List.mem_of_find?_eq_some hf) hv (by
        rw [Version.idOrNull, Version.idOrNull, hidw, hid])
      rw [heq]

end BucketStore
