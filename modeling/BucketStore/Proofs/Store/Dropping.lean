import BucketStore.Proofs.Store.Writing

namespace BucketStore.ObjectStore

variable {n n' : UInt64} {s t : ObjectStore} {key id : String} {v : Version} {status : Versioning}

theorem Sound.ext (hs : s.Sound n) (ht : t.Sound n') (hkind : s.isVersioned = t.isVersioned)
    (h : ∀ key, s.history key = t.history key) : s = t := by
  cases s with
  | plain s =>
      cases t with
      | versioned t => cases hkind
      | plain t =>
          refine congrArg plain (Table.eq_of_get? (fun key => ?_))
          have hkey := congrArg List.head? (h key)
          simp only [ObjectStore.history] at hkey
          cases hs : s.get? key <;> cases ht : t.get? key <;> simp_all
  | versioned s =>
      cases t with
      | plain t => cases hkind
      | versioned t =>
          refine congrArg versioned (Table.eq_of_get? (fun key => ?_))
          have hkey := h key
          simp only [ObjectStore.history, VersionedStore.history] at hkey
          cases hgs : s.get? key with
          | none =>
              cases hgt : t.get? key with
              | none => rfl
              | some l => rw [hgs, hgt] at hkey; exact absurd hkey.symm (ht key l hgt).1
          | some l =>
              cases hgt : t.get? key with
              | none => rw [hgs, hgt] at hkey; exact absurd hkey (hs key l hgs).1
              | some l' => rw [hgs, hgt] at hkey; exact congrArg some hkey

theorem Sound.dropVersion_comm (hs : s.Sound n) (key id key' id' : String) :
    ((s.dropVersion key id).2.dropVersion key' id').2 = ((s.dropVersion key' id').2.dropVersion key id).2 := by
  refine ((hs.dropVersion key id).dropVersion key' id').ext ((hs.dropVersion key' id').dropVersion key id)
    (by simp only [isVersioned_dropVersion]) (fun other => ?_)
  rw [(hs.dropVersion key id).history_dropVersion, (hs.dropVersion key' id').history_dropVersion,
    hs.history_dropVersion, hs.history_dropVersion]
  by_cases hkey : other = key
  · by_cases hkey' : other = key'
    · simp only [if_pos hkey, if_pos hkey', List.filter_comm]
    · simp only [if_pos hkey, if_neg hkey']
  · simp only [if_neg hkey]

/-- A version that was not there when a write was made is dropped before it as well as after it. -/
theorem Sound.dropVersion_add (hs : s.Sound n) (hst : status = .unset ↔ s.isVersioned = false)
    (hid : v.id? = (status.draw n).1) (hn : n ≤ (status.draw n).2) (hne : v.idOrNull ≠ id) :
    ((s.add v).dropVersion key id).2 = (s.dropVersion key id).2.add v := by
  have hdropped := hs.dropVersion key id
  have hst' : status = .unset ↔ (s.dropVersion key id).2.isVersioned = false := by
    rwa [isVersioned_dropVersion]
  have hadded := hs.add hst hid hn
  refine (hadded.dropVersion key id).ext (hdropped.add hst' hid hn)
    (by simp only [isVersioned_dropVersion, isVersioned_add]) (fun other => ?_)
  rw [hadded.history_dropVersion]
  by_cases hv : other = v.key
  · subst hv
    rw [hs.history_add hst hid, hdropped.history_add hst' hid, hs.history_dropVersion]
    split
    · rw [List.filter_cons_of_pos (by simpa using hne.symm), List.filter_comm]
    · rfl
  · rw [history_add_of_ne hv, history_add_of_ne hv, hs.history_dropVersion]

theorem Sound.idOrNull_ne_next (hs : s.Sound n) (hv : v ∈ s.history key) : v.idOrNull ≠ VersionId.ofCounter n := by
  cases s with
  | plain s =>
      obtain ⟨o, ho, rfl⟩ := Option.map_eq_some_iff.mp (Option.mem_toList.mp hv)
      rw [Version.idOrNull, Version.id?, hs key o ho]
      exact (VersionId.ofCounter_ne_null n).symm
  | versioned s =>
      rcases (Sound.history hs key).issued v hv with hid | ⟨m, hm, hid⟩
      · rw [Version.idOrNull, hid]
        exact (VersionId.ofCounter_ne_null n).symm
      · rw [Version.idOrNull, hid]
        exact fun heq => Std.lt_irrefl (VersionId.ofCounter_injective heq ▸ hm)

theorem Sound.dropVersion_drawn (hs : s.Sound n) (hv : s.isVersioned = true)
    (hid : v.id? = some (VersionId.ofCounter n)) (hn : n ≤ n + 1) :
    ((s.add v).dropVersion v.key (VersionId.ofCounter n)).2 = s := by
  have hst : Versioning.enabled = .unset ↔ s.isVersioned = false := by simp [hv]
  have hadded := hs.add hst hid hn
  refine (hadded.dropVersion _ _).ext hs (by simp only [isVersioned_dropVersion, isVersioned_add]) (fun other => ?_)
  rw [hadded.history_dropVersion]
  split
  · rename_i hkey
    subst hkey
    have hkept : (s.history v.key).filter (fun w => VersionId.ofCounter n ≠ w.idOrNull) = s.history v.key :=
      List.filter_eq_self.mpr (fun w hw => decide_eq_true (hs.idOrNull_ne_next hw).symm)
    rw [hs.history_add hst hid, List.filter_cons_of_neg (by simp [Version.idOrNull, hid])]
    simpa [Versioning.replaces] using hkept
  · rename_i hkey
    exact history_add_of_ne hkey

theorem dropVersion_plain (s : PlainStore) (key : String) (m : UInt64) :
    ((plain s).dropVersion key (VersionId.ofCounter m)).2 = plain s := by
  rw [dropVersion, if_neg (VersionId.ofCounter_ne_null m)]

theorem dropVersion_migrate (s : ObjectStore) (key : String) (m : UInt64) :
    (s.migrate.dropVersion key (VersionId.ofCounter m)).2 = (s.dropVersion key (VersionId.ofCounter m)).2.migrate := by
  cases s with
  | versioned s => rfl
  | plain s =>
      rw [dropVersion_plain]
      apply dropVersion_eq_self
      have hnone : VersionedStore.find? (s.map (fun o => [toNullVersion o])) key (VersionId.ofCounter m) = none := by
        refine List.find?_eq_none.mpr (fun v hv => ?_)
        rw [VersionedStore.history, Table.get?_map] at hv
        cases hget : s.get? key with
        | none => simp [hget] at hv
        | some o =>
            obtain rfl : v = toNullVersion o := by simpa [hget] using hv
            simpa [toNullVersion, Version.id?] using (VersionId.ofCounter_ne_null m).symm
      rw [migrate, dropVersion, VersionedStore.dropVersion, hnone]

theorem dropVersion_remove (s : ObjectStore) (key key' : String) (m : UInt64) :
    ((s.remove key').2.dropVersion key (VersionId.ofCounter m)).2 =
      ((s.dropVersion key (VersionId.ofCounter m)).2.remove key').2 := by
  cases s with
  | versioned s => rfl
  | plain s => rw [dropVersion_plain, remove, dropVersion_plain]

end BucketStore.ObjectStore
