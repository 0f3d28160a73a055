import BucketStore.Bucket
import BucketStore.Proofs.Store.Histories
import BucketStore.Proofs.Store.Sessions

namespace BucketStore

namespace Table

variable {κ ν : Type} [LT κ] [LE κ] [Std.IsLinearOrder κ] [Std.LawfulOrderLT κ] [DecidableLT κ] [DecidableEq κ]
  {t : Table κ ν} {j k : κ} {f g : Option ν → Option ν}

def modify (t : Table κ ν) (k : κ) (f : Option ν → Option ν) : Table κ ν :=
  match f (t.get? k) with
  | some v => t.insert k v
  | none => t.erase k

theorem get?_modify (t : Table κ ν) (k j : κ) (f : Option ν → Option ν) :
    (t.modify k f).get? j = if j = k then f (t.get? k) else t.get? j := by
  rw [modify]
  cases h : f (t.get? k) with
  | none => exact get?_erase t k j
  | some v => exact get?_insert t k j v

theorem modify_eq_self (h : f (t.get? k) = t.get? k) : t.modify k f = t := by
  apply eq_of_get?
  intro j
  rw [get?_modify]
  split
  · rename_i hj
    rw [hj, h]
  · rfl

theorem modify_modify (t : Table κ ν) (k : κ) (f g : Option ν → Option ν) :
    (t.modify k f).modify k g = t.modify k (g ∘ f) := by
  apply eq_of_get?
  intro j
  simp only [get?_modify, Function.comp_apply, if_true]
  split <;> rfl

theorem modify_comm (h : j ≠ k) : (t.modify k f).modify j g = (t.modify j g).modify k f := by
  apply eq_of_get?
  intro i
  simp only [get?_modify, if_neg h, if_neg h.symm]
  by_cases hi : i = j
  · rw [if_pos hi, if_neg (hi ▸ h), if_pos hi]
  · simp only [if_neg hi]

end Table

/-- What becomes of one key of a store: of its object in a plain one, of its history in a versioned one. -/
structure KeyEdit where
  plain : Option Object → Option Object
  versioned : Option History → Option History

namespace KeyEdit

def keep : KeyEdit := ⟨id, id⟩

def add (v : Version) : KeyEdit := ⟨fun _ => v.object?, fun h => some ((h.getD []).add v)⟩

def remove : KeyEdit := ⟨fun _ => none, id⟩

def drop (id : String) : KeyEdit where
  plain o := if id = VersionId.null then none else o
  versioned h := h.bind (fun l =>
    match l.find? id with
    | none => some l
    | some _ => if l.remove id = [] then none else some (l.remove id))

end KeyEdit

namespace ObjectStore

variable {s : ObjectStore} {key other id : String} {v : Version} {d d' : KeyEdit}

def edit (key : String) (d : KeyEdit) : ObjectStore → ObjectStore
  | plain s => plain (s.modify key d.plain)
  | versioned s => versioned (s.modify key d.versioned)

theorem edit_keep (key : String) (s : ObjectStore) : s.edit key .keep = s := by
  cases s with
  | plain s => exact congrArg plain (Table.modify_eq_self rfl)
  | versioned s => exact congrArg versioned (Table.modify_eq_self rfl)

theorem add_eq_edit (v : Version) (s : ObjectStore) : s.add v = s.edit v.key (.add v) := by
  cases s with
  | plain s => cases v <;> rfl
  | versioned s => rfl

theorem remove_eq_edit (key : String) (s : ObjectStore) : (s.remove key).2 = s.edit key .remove := by
  cases s with
  | plain s => rfl
  | versioned s => exact congrArg versioned (Table.modify_eq_self rfl).symm

theorem dropVersion_eq_edit (key id : String) (s : ObjectStore) :
    (s.dropVersion key id).2 = s.edit key (.drop id) := by
  cases s with
  | plain s =>
      have hplain : (KeyEdit.drop id).plain (s.get? key) = if id = VersionId.null then none else s.get? key := rfl
      rw [dropVersion, edit]
      split
      · rename_i hid
        rw [Table.modify, hplain, if_pos hid]
      · rename_i hid
        rw [Table.modify_eq_self (hplain.trans (if_neg hid))]
  | versioned s =>
      rw [dropVersion, edit, Table.modify]
      refine congrArg versioned ?_
      simp only [VersionedStore.dropVersion, VersionedStore.find?, VersionedStore.history, KeyEdit.drop]
      cases hget : s.get? key with
      | none => exact (Table.erase_eq_self hget).symm
      | some l =>
          simp only [Option.getD_some, Option.bind_some]
          cases History.find? l id with
          | none => exact (Table.insert_eq_self hget).symm
          | some v => cases hrest : History.remove l id <;> simp

@[simp] theorem isVersioned_edit (key : String) (d : KeyEdit) (s : ObjectStore) :
    (s.edit key d).isVersioned = s.isVersioned := by
  cases s <;> rfl

theorem history_edit_of_ne (h : other ≠ key) : (s.edit key d).history other = s.history other := by
  cases s with
  | plain s => rw [edit, history, Table.get?_modify, if_neg h, history]
  | versioned s =>
      rw [edit, history, VersionedStore.history, Table.get?_modify, if_neg h, history, VersionedStore.history]

theorem dropped_edit_of_ne (h : other ≠ key) :
    ((s.edit key d).dropVersion other id).1 = (s.dropVersion other id).1 := by
  cases s with
  | plain s =>
      simp only [edit, dropVersion, Table.get?_modify, if_neg h]
      split <;> rfl
  | versioned s =>
      have hhistory : VersionedStore.history (s.modify key d.versioned) other = s.history other := by
        rw [VersionedStore.history, Table.get?_modify, if_neg h, VersionedStore.history]
      simp only [edit, dropVersion, VersionedStore.dropVersion, VersionedStore.find?, hhistory]
      cases (s.history other).find? id with
      | none => rfl
      | some v => cases (s.history other).remove id <;> rfl

theorem edit_comm (h : other ≠ key) : (s.edit key d).edit other d' = (s.edit other d').edit key d := by
  cases s with
  | plain s => exact congrArg plain (Table.modify_comm h)
  | versioned s => exact congrArg versioned (Table.modify_comm h)

end ObjectStore

namespace Sessions

variable {s : Sessions} {id other : String} {u : Upload} {r r' : Option Upload}

def settle (s : Sessions) (id : String) (r : Option Upload) : Sessions :=
  ⟨s.uploads.filterMap (fun w => if w.id = id then r else some w)⟩

theorem erase_eq_settle (s : Sessions) (id : String) : s.erase id = s.settle id none := by
  rw [erase, settle, ← List.filterMap_eq_filter]
  refine congrArg Sessions.mk (List.filterMap_congr (fun w _ => ?_))
  by_cases hw : w.id = id <;> simp [hw]

theorem update_eq_settle (s : Sessions) (u : Upload) : s.update u = s.settle u.id (some u) := by
  rw [update, settle, ← List.filterMap_eq_map]
  refine congrArg Sessions.mk (List.filterMap_congr (fun w _ => ?_))
  by_cases hw : w.id = u.id <;> simp [hw]

theorem find?_settle (hr : ∀ w, r = some w → w.id = id) (s : Sessions) (other : String) :
    (s.settle id r).find? other = if other = id then (s.find? id).bind (fun _ => r) else s.find? other := by
  cases r with
  | none =>
      rw [← erase_eq_settle, find?_erase]
      cases s.find? id <;> rfl
  | some w =>
      obtain rfl := hr w rfl
      rw [← update_eq_settle, find?_update]
      split
      · rename_i hid
        rw [hid]
        cases s.find? w.id <;> rfl
      · rfl

theorem settle_comm (h : id ≠ other) (hr : ∀ w, r = some w → w.id = id) (hr' : ∀ w, r' = some w → w.id = other) :
    (s.settle id r).settle other r' = (s.settle other r').settle id r := by
  rw [settle, settle, List.filterMap_filterMap, settle, settle, List.filterMap_filterMap]
  refine congrArg Sessions.mk (List.filterMap_congr (fun w _ => ?_))
  by_cases hid : w.id = id
  · have hother : w.id ≠ other := fun heq => h (hid.symm.trans heq)
    simp only [if_pos hid, if_neg hother, Option.bind_some]
    cases r with
    | none => rfl
    | some v => rw [Option.bind_some, if_neg (fun heq => h ((hr v rfl).symm.trans heq))]
  · simp only [if_neg hid, Option.bind_some]
    by_cases hother : w.id = other
    · simp only [if_pos hother]
      cases r' with
      | none => rfl
      | some v => rw [Option.bind_some, if_neg (fun heq => h (heq.symm.trans (hr' v rfl)))]
    · simp only [if_neg hother, Option.bind_some, if_neg hid]

end Sessions

end BucketStore
