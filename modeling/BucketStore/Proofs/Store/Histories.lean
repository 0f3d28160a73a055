import BucketStore.Proofs.Table
import BucketStore.Store
import Mathlib.Data.List.Basic

namespace BucketStore

namespace VersionedStore

theorem history_insert (s : VersionedStore) (key other : String) (h : History) :
    VersionedStore.history (s.insert key h) other = if other = key then h else s.history other := by
  rw [history, Table.get?_insert]
  split
  · rfl
  · rfl

theorem history_erase (s : VersionedStore) (key other : String) :
    VersionedStore.history (s.erase key) other = if other = key then [] else s.history other := by
  rw [history, Table.get?_erase]
  split
  · rfl
  · rfl

theorem history_add (s : VersionedStore) (v : Version) (key : String) :
    (s.add v).history key = if key = v.key then (s.history key).add v else s.history key := by
  rw [add, history_insert]
  split
  · rename_i h
    rw [h]
  · rfl

theorem history_dropVersion (s : VersionedStore) (key id other : String) :
    (s.dropVersion key id).2.history other =
      if other = key then (s.history other).remove id else s.history other := by
  rw [dropVersion]
  cases hf : s.find? key id with
  | none =>
      have hnone : (s.history key).remove id = s.history key :=
        List.eraseP_of_forall_not (fun v hv => List.find?_eq_none.mp hf v hv)
      dsimp only
      split
      · rename_i h
        rw [h, hnone]
      · rfl
  | some v =>
      cases hr : (s.history key).remove id with
      | nil =>
          simp only [history_erase]
          split
          · rename_i h
            rw [h, hr]
          · rfl
      | cons w rest =>
          simp only [history_insert]
          split
          · rename_i h
            rw [h, hr]
          · rfl

end VersionedStore

namespace ObjectStore

def history (key : String) : ObjectStore → History
  | plain s => ((s.get? key).map .object).toList
  | versioned s => s.history key

def histories : ObjectStore → List (String × History)
  | plain s => s.entries.map (fun e => (e.1, [.object e.2]))
  | versioned s => s.entries

theorem histories_ascending (s : ObjectStore) : s.histories.Pairwise (fun a b => a.1 < b.1) := by
  cases s with
  | plain s => exact List.pairwise_map.mpr s.ascending
  | versioned s => exact s.ascending

theorem history_of_mem {s : ObjectStore} {key : String} {h : History} (hm : (key, h) ∈ s.histories) :
    s.history key = h := by
  cases s with
  | plain s =>
      obtain ⟨⟨k, o⟩, he, heq⟩ := List.mem_map.mp hm
      cases heq
      rw [history, Table.mem_entries.mp he]
      rfl
  | versioned s =>
      rw [history, VersionedStore.history, Table.mem_entries.mp hm]
      rfl

theorem mem_histories {s : ObjectStore} {key : String} (h : s.history key ≠ []) :
    (key, s.history key) ∈ s.histories := by
  cases s with
  | plain s =>
      cases ho : s.get? key with
      | none => exact absurd (by rw [history, ho]; rfl) h
      | some o =>
          rw [history, ho]
          exact List.mem_map.mpr ⟨(key, o), Table.mem_entries.mpr ho, rfl⟩
  | versioned s =>
      cases ho : s.get? key with
      | none => exact absurd (by rw [history, VersionedStore.history, ho]; rfl) h
      | some l =>
          rw [history, VersionedStore.history, ho]
          exact Table.mem_entries.mpr ho

theorem mem_history_add {s : ObjectStore} {v w : Version} {key : String}
    (h : w ∈ (s.add v).history key) : (w = v ∧ key = v.key) ∨ w ∈ s.history key := by
  cases s with
  | plain s =>
      cases v with
      | object o =>
          simp only [add, history, Table.get?_insert] at h
          split at h
          · rename_i hk
            exact .inl ⟨by simpa using h, hk⟩
          · exact .inr h
      | marker m =>
          simp only [add, history, Table.get?_erase] at h
          split at h
          · simp at h
          · exact .inr h
  | versioned s =>
      simp only [add, history, VersionedStore.history_add] at h
      split at h
      · rename_i hk
        rw [History.add] at h
        split at h
        · rcases List.mem_cons.mp h with rfl | h
          · exact .inl ⟨rfl, hk⟩
          · exact .inr (List.mem_of_mem_filter h)
        · rcases List.mem_cons.mp h with rfl | h
          · exact .inl ⟨rfl, hk⟩
          · exact .inr h
      · exact .inr h

theorem history_remove_sublist (s : ObjectStore) (key other : String) :
    ((s.remove key).2.history other).Sublist (s.history other) := by
  cases s with
  | plain s =>
      simp only [remove, history, Table.get?_erase]
      split
      · exact List.nil_sublist _
      · exact List.Sublist.refl _
  | versioned s => exact List.Sublist.refl _

theorem history_dropVersion_sublist (s : ObjectStore) (key id other : String) :
    ((s.dropVersion key id).2.history other).Sublist (s.history other) := by
  cases s with
  | plain s =>
      simp only [dropVersion]
      split
      · exact history_remove_sublist (plain s) key other
      · exact List.Sublist.refl _
  | versioned s =>
      simp only [dropVersion, history, VersionedStore.history_dropVersion]
      split
      · exact List.eraseP_sublist
      · exact List.Sublist.refl _

theorem dropVersion_eq_self {s : ObjectStore} {key id : String} (h : (s.dropVersion key id).1 = none) :
    (s.dropVersion key id).2 = s := by
  cases s with
  | plain s =>
      rw [dropVersion] at h ⊢
      split
      · rename_i hid
        rw [if_pos hid, Option.map_eq_none_iff] at h
        rw [Table.erase_eq_self h]
      · rfl
  | versioned s =>
      rw [dropVersion, VersionedStore.dropVersion] at h ⊢
      cases hf : s.find? key id with
      | none => rfl
      | some v =>
          rw [hf] at h
          dsimp only at h
          split at h <;> cases h

theorem mem_history_migrate {s : ObjectStore} {w : Version} {key : String}
    (h : w ∈ s.migrate.history key) :
    w ∈ s.history key ∨ ∃ o, .object o ∈ s.history key ∧ w = toNullVersion o := by
  cases s with
  | plain s =>
      rw [migrate, history, VersionedStore.history, Table.get?_map] at h
      cases ho : s.get? key with
      | none => simp [ho] at h
      | some o =>
          rw [ho] at h
          exact .inr ⟨o, by simp [history, ho], by simpa using h⟩
  | versioned s => exact .inl h

end ObjectStore

end BucketStore
