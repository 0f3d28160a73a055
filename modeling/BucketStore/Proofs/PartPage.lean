import BucketStore.Proofs.Store.Sessions
import Mathlib.Data.List.Pairwise

namespace BucketStore

/-- Whether a part number is greater than a marker. All numbers are past no marker. -/
def PastMarker (marker : Option UInt32) (number : UInt32) : Prop := ∀ m ∈ marker, m < number

/-- How many numbers are past a marker. -/
def numbersPast : Option UInt32 → Nat
  | none => UInt32.size
  | some m => UInt32.size - 1 - m.toNat

theorem PastMarker.trans {marker : Option UInt32} {m number : UInt32} (h : PastMarker marker m) (hlt : m < number) :
    PastMarker marker number := fun k hk => UInt32.lt_trans (h k hk) hlt

theorem numbersPast_lt {marker : Option UInt32} {number : UInt32} (h : PastMarker marker number) :
    numbersPast (some number) < numbersPast marker := by
  have hsize := number.toNat_lt_size
  cases marker with
  | none =>
      rw [numbersPast, numbersPast]
      omega
  | some m =>
      have hlt := UInt32.lt_iff_toNat_lt.mp (h m rfl)
      rw [numbersPast, numbersPast]
      omega

namespace Upload

def Numbered (u : Upload) : Prop := ∀ number p, u.part? number = some p → p.number = number

/-- A page shows the first parts past a marker, in the order of their numbers and as many as fit. It hands out its
last number when there are more. -/
structure Shows (u : Upload) (marker : Option UInt32) (cap : Nat) (page : PartPage) : Prop where
  ascending : page.parts.Pairwise (fun p q => p.number < q.number)
  length_le : page.parts.length ≤ cap
  stored : ∀ p ∈ page.parts, u.part? p.number = some p ∧ PastMarker marker p.number
  first : ∀ number, u.part? number ≠ none → PastMarker marker number →
    number ∈ page.parts.map Part.number ∨ page.parts.length = cap ∧ ∀ p ∈ page.parts, p.number < number
  truncated_iff : page.truncated = true ↔
    ∃ number, u.part? number ≠ none ∧ PastMarker marker number ∧ number ∉ page.parts.map Part.number
  nextMarker_iff : ∀ m, page.nextMarker = some m ↔
    page.truncated = true ∧ m ∈ page.parts.map Part.number ∧ ∀ p ∈ page.parts, p.number ≤ m

variable {name : String} {u : Upload} {marker : Option UInt32} {cap : Nat} {page : PartPage}

theorem Filed.numbered (hu : u.Filed name) : u.Numbered := fun number p hp => (hu.parts number p hp).1

theorem Numbered.values_ascending (hu : u.Numbered) : u.parts.values.Pairwise (fun p q => p.number < q.number) := by
  rw [Table.values, List.pairwise_map]
  refine u.parts.ascending.imp_of_mem (fun {a b} ha hb hlt => ?_)
  rwa [hu a.1 a.2 (Table.mem_entries.mp ha), hu b.1 b.2 (Table.mem_entries.mp hb)]

theorem Numbered.mem_values_iff (hu : u.Numbered) {p : Part} : p ∈ u.parts.values ↔ u.part? p.number = some p := by
  rw [Table.values, List.mem_map]
  constructor
  · rintro ⟨⟨number, p⟩, hp, rfl⟩
    have hpart := Table.mem_entries.mp hp
    rwa [← hu number p hpart] at hpart
  · exact fun hp => ⟨(p.number, p), Table.mem_entries.mpr hp, rfl⟩

/-- The parts past a marker, in the order of their numbers. -/
def partsPast (u : Upload) (marker : Option UInt32) : List Part :=
  u.parts.values.filter (fun p => marker.all (· < p.number))

theorem Numbered.partsPast_ascending (hu : u.Numbered) (marker : Option UInt32) :
    (u.partsPast marker).Pairwise (fun p q => p.number < q.number) := hu.values_ascending.filter _

theorem Numbered.mem_partsPast_iff (hu : u.Numbered) {p : Part} :
    p ∈ u.partsPast marker ↔ u.part? p.number = some p ∧ PastMarker marker p.number := by
  rw [partsPast, List.mem_filter, hu.mem_values_iff, PastMarker]
  cases marker <;> simp

theorem Numbered.exists_partsPast_iff (hu : u.Numbered) {number : UInt32} :
    (∃ p ∈ u.partsPast marker, p.number = number) ↔ u.part? number ≠ none ∧ PastMarker marker number := by
  constructor
  · rintro ⟨p, hp, rfl⟩
    obtain ⟨hpart, hpast⟩ := hu.mem_partsPast_iff.mp hp
    exact ⟨Option.ne_none_iff_exists'.mpr ⟨p, hpart⟩, hpast⟩
  · rintro ⟨hstored, hpast⟩
    obtain ⟨p, hp⟩ := Option.ne_none_iff_exists'.mp hstored
    obtain rfl := hu number p hp
    exact ⟨p, hu.mem_partsPast_iff.mpr ⟨hp, hpast⟩, rfl⟩

theorem le_getLast {l : List Part} {p q : Part} (hl : l.Pairwise (fun p q => p.number < q.number))
    (hp : l.getLast? = some p) (hq : q ∈ l) : q.number ≤ p.number := by
  obtain ⟨front, rfl⟩ := List.getLast?_eq_some_iff.mp hp
  rcases List.mem_append.mp hq with hq | hq
  · exact UInt32.le_of_lt ((List.pairwise_append.mp hl).2.2 q hq p List.mem_cons_self)
  · rw [List.mem_singleton.mp hq]
    exact UInt32.le_refl _

theorem nextMarker_eq_some_iff (hpage : page.parts.Pairwise (fun p q => p.number < q.number)) (m : UInt32) :
    page.nextMarker = some m ↔
      page.truncated = true ∧ m ∈ page.parts.map Part.number ∧ ∀ p ∈ page.parts, p.number ≤ m := by
  rw [PartPage.nextMarker, Option.ite_none_right_eq_some, Option.map_eq_some_iff]
  refine and_congr_right' ⟨?_, ?_⟩
  · rintro ⟨p, hlast, rfl⟩
    exact ⟨List.mem_map_of_mem (List.mem_of_getLast? hlast), fun q hq => le_getLast hpage hlast hq⟩
  · rintro ⟨hm, hle⟩
    obtain ⟨q, hq, rfl⟩ := List.mem_map.mp hm
    have hlast := List.getLast?_eq_some_getLast (List.ne_nil_of_mem hq)
    exact ⟨_, hlast, UInt32.le_antisymm (hle _ (List.getLast_mem _)) (le_getLast hpage hlast hq)⟩

theorem Numbered.shows_of_split (hu : u.Numbered) {shown later : List Part}
    (hsplit : u.partsPast marker = shown ++ later) (hlength : shown.length ≤ cap)
    (hfull : later ≠ [] → shown.length = cap) : u.Shows marker cap ⟨shown, decide (later ≠ [])⟩ := by
  have hall := hu.partsPast_ascending marker
  rw [hsplit] at hall
  obtain ⟨hshown, _, hcross⟩ := List.pairwise_append.mp hall
  -- whatever is past the marker is either shown or comes later, and then its number is above all that are shown
  refine ⟨hshown, hlength, fun p hp => ?_, fun number hstored hpast => ?_, ?_, nextMarker_eq_some_iff hshown⟩
  · exact hu.mem_partsPast_iff.mp (hsplit ▸ List.mem_append_left _ hp)
  · obtain ⟨p, hp, rfl⟩ := hu.exists_partsPast_iff.mpr ⟨hstored, hpast⟩
    rw [hsplit, List.mem_append] at hp
    rcases hp with hp | hp
    · exact .inl (List.mem_map_of_mem hp)
    · exact .inr ⟨hfull (List.ne_nil_of_mem hp), fun q hq => hcross q hq p hp⟩
  · rw [decide_eq_true_eq]
    constructor
    · intro hlater
      obtain ⟨p, hp⟩ := List.exists_mem_of_ne_nil later hlater
      obtain ⟨hstored, hpast⟩ := hu.exists_partsPast_iff.mp ⟨p, hsplit ▸ List.mem_append_right _ hp, rfl⟩
      refine ⟨p.number, hstored, hpast, fun hnumber => ?_⟩
      obtain ⟨q, hq, heq⟩ := List.mem_map.mp hnumber
      exact UInt32.lt_irrefl _ (heq ▸ hcross q hq p hp)
    · rintro ⟨number, hstored, hpast, habsent⟩
      obtain ⟨p, hp, rfl⟩ := hu.exists_partsPast_iff.mpr ⟨hstored, hpast⟩
      rw [hsplit, List.mem_append] at hp
      exact List.ne_nil_of_mem (hp.resolve_left (fun hp => habsent (List.mem_map_of_mem hp)))

theorem Numbered.shows_listParts (hu : u.Numbered) (marker : Option UInt32) (cap : Nat) :
    u.Shows marker cap (u.listParts marker cap) := by
  have hpage : u.listParts marker cap =
      ⟨(u.partsPast marker).take cap, decide ((u.partsPast marker).drop cap ≠ [])⟩ := by
    simp [listParts, partsPast]
  rw [hpage]
  refine hu.shows_of_split (List.take_append_drop _ _).symm (List.length_take_le _ _) (fun hlater => ?_)
  rw [List.length_take, Nat.min_eq_left]
  exact Nat.le_of_lt (by simpa using hlater)

theorem Shows.exists_next (h : u.Shows marker cap page) (hcap : 1 ≤ cap) (htruncated : page.truncated = true) :
    ∃ p ∈ page.parts, page.nextMarker = some p.number ∧ ∀ q ∈ page.parts, q.number ≤ p.number := by
  obtain ⟨number, hstored, hpast, habsent⟩ := h.truncated_iff.mp htruncated
  have hlength := ((h.first number hstored hpast).resolve_left habsent).1
  have hne : page.parts ≠ [] := List.ne_nil_of_length_pos (by omega)
  have hlast := List.getLast?_eq_some_getLast hne
  have hle : ∀ q ∈ page.parts, q.number ≤ (page.parts.getLast hne).number := fun q hq => le_getLast h.ascending hlast hq
  have hmem := List.getLast_mem hne
  exact ⟨_, hmem, (h.nextMarker_iff _).mpr ⟨htruncated, List.mem_map_of_mem hmem, hle⟩, hle⟩

end Upload

end BucketStore
