import BucketStore.Proofs.PartChoice
import BucketStore.Proofs.PartPage
import Mathlib.Algebra.GroupWithZero.Nat
import Mathlib.Data.List.Dedup
import Mathlib.Data.List.Induction

namespace BucketStore

def lastBody? (calls : List (UInt32 × List UInt8)) (number : UInt32) : Option (List UInt8) :=
  (calls.reverse.find? (fun c => c.1 = number)).map Prod.snd

/-- What an upload holds after parts were uploaded to it: of each number the part of the last call, and no
trace of the calls before. -/
structure Upload.HoldsLast (calls : List (UInt32 × List UInt8)) (u : Upload) : Prop where
  part? : ∀ number, u.part? number = (lastBody? calls number).map (Part.ofBody number)
  partsCount : u.partsCount = (calls.map Prod.fst).dedup.length
  totalSize : u.totalSize =
    ((calls.map Prod.fst).dedup.map (fun number => ((lastBody? calls number).getD []).length)).sum
  listParts : ∀ cap, u.partsCount ≤ cap → ∃ parts, u.listParts none cap = ⟨parts, false⟩ ∧
    parts.Pairwise (fun p q => p.number < q.number) ∧
    ∀ p, p ∈ parts ↔ ∃ number body, lastBody? calls number = some body ∧ p = Part.ofBody number body

variable {calls : List (UInt32 × List UInt8)} {number : UInt32} {body : List UInt8}

theorem lastBody?_concat (calls : List (UInt32 × List UInt8)) (number : UInt32) (body : List UInt8) (n : UInt32) :
    lastBody? (calls ++ [(number, body)]) n = if n = number then some body else lastBody? calls n := by
  rw [lastBody?, List.reverse_append, List.reverse_singleton, List.singleton_append, List.find?_cons]
  by_cases h : n = number
  · simp [h]
  · simp [h, Ne.symm h, lastBody?]

theorem lastBody?_ne_none_iff : lastBody? calls number ≠ none ↔ number ∈ calls.map Prod.fst := by
  simp [lastBody?]

namespace Upload

variable {u : Upload}

def receive (u : Upload) (calls : List (UInt32 × List UInt8)) : Upload :=
  u.putAll (calls.map (fun c => Part.ofBody c.1 c.2))

theorem receive_concat (u : Upload) (calls : List (UInt32 × List UInt8)) (number : UInt32) (body : List UInt8) :
    u.receive (calls ++ [(number, body)]) = (u.receive calls).put (Part.ofBody number body) := by
  rw [receive, List.map_append, putAll, List.foldl_append]
  rfl

theorem receive_key (u : Upload) (calls : List (UInt32 × List UInt8)) : (u.receive calls).key = u.key :=
  congrArg UploadSummary.key (putAll_summary u _)

theorem part?_receive (hu : u.parts = .empty) (calls : List (UInt32 × List UInt8)) (number : UInt32) :
    (u.receive calls).part? number = (lastBody? calls number).map (Part.ofBody number) := by
  induction calls using List.reverseRecOn with
  | nil =>
      rw [receive, List.map_nil, putAll_nil, Upload.part?, hu]
      rfl
  | append_singleton calls c ih =>
      obtain ⟨n, body⟩ := c
      rw [receive_concat, part?_put, ih, lastBody?_concat]
      by_cases h : number = n
      · subst h
        simp [Part.ofBody]
      · simp [Part.ofBody, h]

section Parts

variable (h : ∀ number, u.part? number = (lastBody? calls number).map (Part.ofBody number))

include h

theorem mem_entries_iff {p : Part} : (number, p) ∈ u.parts.entries ↔
    ∃ body, lastBody? calls number = some body ∧ p = Part.ofBody number body := by
  rw [Table.mem_entries]
  change u.part? number = some p ↔ _
  rw [h, Option.map_eq_some_iff]
  simp only [eq_comm]

theorem keys_perm : u.parts.keys.Perm (calls.map Prod.fst).dedup := by
  have hnodup : u.parts.keys.Nodup := List.pairwise_map.mpr (u.parts.ascending.imp (fun hlt => UInt32.ne_of_lt hlt))
  refine (List.perm_ext_iff_of_nodup hnodup (List.nodup_dedup _)).mpr (fun number => ?_)
  rw [List.mem_dedup, ← lastBody?_ne_none_iff, Option.ne_none_iff_exists', Table.keys, List.mem_map]
  constructor
  · rintro ⟨⟨n, p⟩, hmem, rfl⟩
    obtain ⟨body, hbody, _⟩ := (mem_entries_iff h).mp hmem
    exact ⟨body, hbody⟩
  · rintro ⟨body, hbody⟩
    exact ⟨(number, Part.ofBody number body), (mem_entries_iff h).mpr ⟨body, hbody, rfl⟩, rfl⟩

theorem totalSize_eq : u.totalSize =
    ((calls.map Prod.fst).dedup.map (fun number => ((lastBody? calls number).getD []).length)).sum := by
  have hsizes : u.parts.values.map (·.size) =
      u.parts.keys.map (fun number => ((lastBody? calls number).getD []).length) := by
    rw [Table.values, Table.keys, List.map_map, List.map_map]
    refine List.map_congr_left (fun e he => ?_)
    obtain ⟨body, hbody, hp⟩ := (mem_entries_iff h).mp he
    simp [hbody, hp, Part.ofBody]
  calc u.totalSize
      = (u.parts.values.map (·.size)).sum := by rw [totalSize, List.sum_eq_foldl, List.foldl_map]
    _ = (u.parts.keys.map (fun number => ((lastBody? calls number).getD []).length)).sum := by rw [hsizes]
    _ = _ := ((keys_perm h).map _).sum_nat

theorem numbered : u.Numbered := by
  intro number p hp
  rw [h, Option.map_eq_some_iff] at hp
  obtain ⟨body, _, rfl⟩ := hp
  rfl

theorem mem_values_iff {p : Part} : p ∈ u.parts.values ↔
    ∃ number body, lastBody? calls number = some body ∧ p = Part.ofBody number body := by
  rw [Table.values, List.mem_map]
  constructor
  · rintro ⟨⟨number, p⟩, hmem, rfl⟩
    exact ⟨number, (mem_entries_iff h).mp hmem⟩
  · rintro ⟨number, hlast⟩
    exact ⟨(number, p), (mem_entries_iff h).mpr hlast, rfl⟩

theorem holdsLast_of_part? : u.HoldsLast calls where
  part? := h
  partsCount := by
    rw [← (keys_perm h).length_eq, Table.keys, List.length_map]
    rfl
  totalSize := totalSize_eq h
  listParts cap hcap := by
    refine ⟨u.parts.values, ?_, (numbered h).values_ascending, fun p => mem_values_iff h⟩
    have hlength : u.parts.values.length ≤ cap := by rwa [Table.values, List.length_map]
    simp [Upload.listParts, List.take_of_length_le hlength, hlength]

end Parts

theorem HoldsLast.choose_eq {w : Upload} {calls' : List (UInt32 × List UInt8)} (hu : u.HoldsLast calls)
    (hw : w.HoldsLast calls') (h : ∀ number, lastBody? calls number = lastBody? calls' number)
    (previous : Option UInt32) (choice : List PartChoice) : u.choose previous choice = w.choose previous choice :=
  choose_congr (fun c _ => by rw [hu.part?, hw.part?, h]) previous

end Upload

end BucketStore
