import BucketStore.Proofs.Store.Sound

namespace BucketStore

def Object.identified (o : Object) : Object := { o with versionId := some (o.versionId.getD VersionId.null) }

namespace Version

variable {v w : Version} {id : String} {l : List Version}

def identified : Version → Version
  | object o => .object o.identified
  | marker m => .marker m

theorem idOrNull_identified (v : Version) : v.identified.idOrNull = v.idOrNull := by
  cases v <;> rfl

theorem identified_of_id (h : v.id? = some id) : v.identified = v := by
  cases v with
  | marker m => rfl
  | object o =>
      obtain ⟨⟨key, versionId, _, _, _, _⟩, _⟩ := o
      obtain rfl : versionId = some id := h
      rfl

theorem eq_of_identified (h : w.identified = v) (hid : v.id? = some id) (hne : id ≠ VersionId.null) : w = v := by
  have hidw : w.idOrNull = id := by rw [← idOrNull_identified, h, idOrNull, hid, Option.getD_some]
  cases hw : w.id? with
  | none =>
      rw [idOrNull, hw] at hidw
      exact absurd hidw.symm hne
  | some => rw [← h, identified_of_id hw]

theorem mem_of_identified (hv : v ∈ l.map identified) (hid : v.id? = some id) (hne : id ≠ VersionId.null) :
    v ∈ l := by
  obtain ⟨w, hw, hidentified⟩ := List.mem_map.mp hv
  rwa [← eq_of_identified hidentified hid hne]

end Version

theorem History.remove_eq_filter {h : History} {id : String} (hids : ∀ v ∈ h, v.id? = some v.idOrNull)
    (hdistinct : h.Pairwise (fun v w => v.idOrNull ≠ w.idOrNull)) :
    h.remove id = h.filter (fun v => id ≠ v.idOrNull) := by
  induction h with
  | nil => rfl
  | cons v rest ih =>
      obtain ⟨hv, hrest⟩ := List.pairwise_cons.mp hdistinct
      obtain ⟨hidv, hids⟩ := List.forall_mem_cons.mp hids
      by_cases hid : id = v.idOrNull
      · subst hid
        have hkept : rest.filter (fun w => v.idOrNull ≠ w.idOrNull) = rest :=
          List.filter_eq_self.mpr (fun w hw => decide_eq_true (hv w hw))
        rw [remove, List.eraseP_cons_of_pos (by simp [hidv]), List.filter_cons_of_neg (by simp), hkept]
      · have hne : v.id? ≠ some id := fun h => hid (Option.some.inj (h.symm.trans hidv))
        rw [remove, List.eraseP_cons_of_neg (by simp [hne]), List.filter_cons_of_pos (by simp [hid])]
        exact congrArg (v :: ·) (ih hids hrest)

/-- Whether a write under this status makes `v`, an older version of its key, disappear. -/
def Versioning.replaces (v : Version) : Versioning → Bool
  | unset => true
  | enabled => false
  | suspended => v.idOrNull = VersionId.null

namespace ObjectStore

variable {n : UInt64} {s : ObjectStore} {key id : String} {v w : Version}

theorem history_add_of_ne (h : key ≠ v.key) : (s.add v).history key = s.history key := by
  cases s with
  | plain s =>
      cases v with
      | object o => simp only [add, history, Table.get?_insert, if_neg (show key ≠ o.key from h)]
      | marker m => simp only [add, history, Table.get?_erase, if_neg (show key ≠ m.key from h)]
  | versioned s =>
      simp only [add, history, VersionedStore.history_add, if_neg h]

theorem Sound.id?_eq {s : VersionedStore} (hs : (versioned s).Sound n) (hv : v ∈ s.history key) :
    v.id? = some v.idOrNull := by
  rcases (Sound.history hs key).issued v hv with hid | ⟨m, _, hid⟩ <;> rw [Version.idOrNull, hid] <;> rfl

theorem Sound.isNull_iff {s : VersionedStore} (hs : (versioned s).Sound n) (hv : v ∈ s.history key) :
    History.isNull v = true ↔ v.idOrNull = VersionId.null := by
  rw [History.isNull, decide_eq_true_eq, hs.id?_eq hv, Option.some_inj]

theorem Sound.history_add {status : Versioning} (hs : s.Sound n) (hst : status = .unset ↔ s.isVersioned = false)
    (hid : v.id? = (status.draw n).1) :
    (s.add v).history v.key = v :: (s.history v.key).filter (fun w => !status.replaces w) := by
  cases s with
  | plain s =>
      obtain rfl : status = .unset := hst.mpr rfl
      cases v with
      | marker m => cases hid
      | object o => simp [ObjectStore.add, ObjectStore.history, Version.key, Table.get?_insert, Versioning.replaces]
  | versioned s =>
      simp only [ObjectStore.add, ObjectStore.history, VersionedStore.history_add, if_pos, History.add]
      cases status with
      | unset => exact absurd (hst.mp rfl) (by simp [isVersioned])
      | enabled =>
          have hnull : History.isNull v = false := by
            simp [History.isNull, hid, Versioning.draw, VersionId.ofCounter_ne_null]
          simp [hnull, Versioning.replaces]
      | suspended =>
          have hnull : History.isNull v = true := by simp [History.isNull, hid, Versioning.draw]
          rw [if_pos hnull]
          congr 1
          refine List.filter_congr (fun w hw => ?_)
          rw [Versioning.replaces, Bool.eq_iff_iff, Bool.not_eq_true', Bool.not_eq_true', ← Bool.not_eq_true,
            ← Bool.not_eq_true, hs.isNull_iff hw, decide_eq_true_eq]

theorem history_remove {s : ObjectStore} (hs : s.isVersioned = false) (key other : String) :
    (s.remove key).2.history other = if other = key then [] else s.history other := by
  cases s with
  | versioned s => cases hs
  | plain s =>
      simp only [remove, history, Table.get?_erase]
      split <;> rfl

theorem Sound.history_dropVersion (hs : s.Sound n) (key id other : String) :
    (s.dropVersion key id).2.history other =
      if other = key then (s.history other).filter (fun w => id ≠ w.idOrNull) else s.history other := by
  cases s with
  | plain s =>
      have hnull : ∀ o, s.get? key = some o → (Version.object o).idOrNull = VersionId.null := by
        intro o hget
        rw [Version.idOrNull, Version.id?, hs key o hget]
        rfl
      by_cases hid : id = VersionId.null
      · subst hid
        simp only [ObjectStore.dropVersion, if_pos, ObjectStore.history, Table.get?_erase]
        split
        · rename_i hkey
          subst hkey
          cases hget : s.get? other with
          | none => rfl
          | some o => simp [hnull o hget]
        · rfl
      · simp only [ObjectStore.dropVersion, if_neg hid]
        split
        · rename_i hkey
          subst hkey
          cases hget : s.get? other with
          | none => simp [ObjectStore.history, hget]
          | some o => simp [ObjectStore.history, hget, hnull o hget, hid]
        · rfl
  | versioned s =>
      simp only [ObjectStore.dropVersion, ObjectStore.history, VersionedStore.history_dropVersion]
      split
      · exact History.remove_eq_filter (fun v hv => hs.id?_eq hv) (hs.ids_distinct other)
      · rfl

theorem Sound.history_migrate (hs : s.Sound n) (key : String) :
    (s.migrate.history key).map Version.identified = (s.history key).map Version.identified := by
  cases s with
  | versioned s => rfl
  | plain s =>
      simp only [ObjectStore.migrate, ObjectStore.history, VersionedStore.history, Table.get?_map]
      cases hget : s.get? key with
      | none => rfl
      | some o =>
          have hnone : o.versionId = none := hs key o hget
          simp [toNullVersion, Version.identified, Object.identified, hnone]

end ObjectStore

end BucketStore
