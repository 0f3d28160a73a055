import BucketStore.Proofs.Table
import BucketStore.Upload
import Mathlib.Data.List.Nodup

namespace BucketStore

/-- An upload of the bucket called `name`, with each part under its own number, of the size and with the
tag of its body. -/
structure Upload.Filed (name : String) (u : Upload) : Prop where
  bucket : u.bucket = name
  parts : ∀ number p, u.part? number = some p →
    p.number = number ∧ p.size = p.body.length ∧ p.etag = EntityTag.ofBody p.body

structure Sessions.Filed (name : String) (s : Sessions) : Prop where
  ids : (s.uploads.map (·.id)).Nodup
  found : ∀ id u, s.find? id = some u → u.id = id
  uploads : ∀ u ∈ s.uploads, s.find? u.id = some u ∧ u.Filed name

namespace Upload

variable {name key id : String} {metadata : Metadata} {u : Upload}

theorem part?_put (u : Upload) (p : Part) (number : UInt32) :
    (u.put p).part? number = if number = p.number then some p else u.part? number :=
  Table.get?_insert u.parts p.number number p

theorem Filed.begun : Filed name ⟨⟨id, name, key, metadata⟩, .empty⟩ :=
  ⟨rfl, fun _ _ hp => by cases hp⟩

theorem Filed.put (hu : u.Filed name) (number : UInt32) (body : List UInt8) :
    (u.put (Part.ofBody number body)).Filed name := by
  refine ⟨hu.bucket, fun n p hp => ?_⟩
  rw [part?_put] at hp
  split at hp
  · rename_i hn
    cases hp
    exact ⟨hn.symm, rfl, rfl⟩
  · exact hu.parts n p hp

def putAll (u : Upload) (parts : List Part) : Upload := parts.foldl put u

@[simp] theorem putAll_nil (u : Upload) : u.putAll [] = u := rfl

@[simp] theorem putAll_cons (u : Upload) (p : Part) (parts : List Part) :
    u.putAll (p :: parts) = (u.put p).putAll parts := rfl

theorem putAll_summary (u : Upload) (parts : List Part) :
    (u.putAll parts).toUploadSummary = u.toUploadSummary := by
  induction parts generalizing u with
  | nil => rfl
  | cons p parts ih => exact ih (u.put p)

theorem mem_of_putAll {parts : List Part} {number : UInt32} {p : Part}
    (h : (u.putAll parts).part? number = some p) : p ∈ parts ∨ u.part? number = some p := by
  induction parts generalizing u with
  | nil => exact .inr h
  | cons q parts ih =>
      rcases ih h with hp | hp
      · exact .inl (List.mem_cons_of_mem _ hp)
      · rw [part?_put] at hp
        split at hp
        · cases hp
          exact .inl List.mem_cons_self
        · exact .inr hp

end Upload

namespace Sessions

variable {name id : String} {s : Sessions} {u w : Upload}

theorem id_of_find? (h : s.find? id = some u) : u.id = id := by
  simpa using List.find?_some h

theorem find?_erase (s : Sessions) (dropped id : String) :
    (s.erase dropped).find? id = if id = dropped then none else s.find? id := by
  rw [find?, erase, List.find?_filter]
  split
  · rename_i hid
    subst hid
    exact List.find?_eq_none.mpr (by simp)
  · rename_i hid
    rw [find?]
    congr 1
    funext u
    by_cases hu : u.id = id <;> simp [hu, hid]

theorem find?_begin (s : Sessions) (u : Upload) (id : String) :
    (s.begin u).find? id = if id = u.id then some u else s.find? id := by
  have hlast : (s.begin u).find? id = ((s.erase u.id).find? id).or (if id = u.id then some u else none) := by
    rw [find?, begin, List.find?_append, List.find?_singleton, find?]
    simp [eq_comm]
  rw [hlast, find?_erase]
  split
  · rfl
  · exact Option.or_none

theorem find?_update (s : Sessions) (u : Upload) (id : String) :
    (s.update u).find? id = if id = u.id then (s.find? id).map (fun _ => u) else s.find? id := by
  obtain ⟨l⟩ := s
  simp only [find?, update, List.find?_map]
  induction l with
  | nil => simp
  | cons w rest ih =>
      by_cases hid : id = u.id <;> by_cases hw : w.id = u.id <;> by_cases hf : w.id = id <;> simp_all

theorem erase_eq_self (h : s.find? id = none) : s.erase id = s := by
  have hne : ∀ u ∈ s.uploads, u.id ≠ id := by simpa using List.find?_eq_none.mp h
  rw [erase, List.filter_eq_self.mpr (fun u hu => decide_eq_true (hne u hu))]

theorem erase_begin (h : s.find? u.id = none) : (s.begin u).erase u.id = s := by
  rw [erase, begin, erase_eq_self h, List.filter_append]
  change ⟨(s.erase u.id).uploads ++ _⟩ = s
  rw [erase_eq_self h]
  simp

theorem update_begin (s : Sessions) (h : w.id = u.id) : (s.begin u).update w = s.begin w := by
  have hothers : ∀ v ∈ (s.erase u.id).uploads, (if v.id = w.id then w else v) = v := by
    intro v hv
    rw [h, if_neg (of_decide_eq_true (List.mem_filter.mp hv).2)]
  rw [update, begin, begin, List.map_append, List.map_congr_left hothers, h]
  simp

theorem Filed.of (hids : (s.uploads.map (·.id)).Nodup) (hs : ∀ u ∈ s.uploads, u.Filed name) : s.Filed name := by
  refine ⟨hids, fun _ _ => id_of_find?, fun u hu => ⟨?_, hs u hu⟩⟩
  cases hf : s.find? u.id with
  | none => exact absurd (decide_eq_true rfl) (List.find?_eq_none.mp hf u hu)
  | some w =>
      have hw : w ∈ s.uploads := List.mem_of_find?_eq_some hf
      rw [List.inj_on_of_nodup_map hids hw hu (id_of_find? hf)]

theorem Filed.erase (hs : s.Filed name) (dropped : String) : (s.erase dropped).Filed name :=
  .of (hs.ids.sublist (List.filter_sublist.map _))
    (fun u hu => (hs.uploads u (List.mem_of_mem_filter hu)).2)

theorem Filed.begin (hs : s.Filed name) (hu : u.Filed name) : (s.begin u).Filed name := by
  have hrest := hs.erase u.id
  refine .of ?_ (List.forall_mem_append.mpr ⟨fun w hw => (hrest.uploads w hw).2, by simpa using hu⟩)
  rw [Sessions.begin, List.map_append]
  refine hrest.ids.append (List.nodup_singleton _) (fun id hid hid' => ?_)
  obtain ⟨w, hw, rfl⟩ := List.mem_map.mp hid
  exact of_decide_eq_true (List.mem_filter.mp hw).2 (List.mem_singleton.mp hid')

theorem Filed.update (hs : s.Filed name) (hu : u.Filed name) : (s.update u).Filed name := by
  have hids : (s.update u).uploads.map (·.id) = s.uploads.map (·.id) := by
    rw [Sessions.update, List.map_map]
    refine List.map_congr_left (fun w _ => ?_)
    by_cases hw : w.id = u.id <;> simp [hw]
  refine .of (hids ▸ hs.ids) (fun w hw => ?_)
  obtain ⟨v, hv, rfl⟩ := List.mem_map.mp hw
  split
  · exact hu
  · exact (hs.uploads v hv).2

end Sessions

end BucketStore
