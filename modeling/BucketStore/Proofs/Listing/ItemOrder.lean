import BucketStore.Proofs.Listing.FirstOccurrence
import BucketStore.Proofs.Listing.Items
import BucketStore.Proofs.Utf8
import Mathlib.Data.Nat.Find

namespace BucketStore.Listing

open Text

variable {stem delimiter key other cp : String} {cut : List UInt8}

/-- The bytes of `key` up to and including the first place behind those of `stem` where the bytes of the delimiter
stand, wherever its characters begin. -/
def CutsBytes (stem delimiter key : String) (cut : List UInt8) : Prop :=
  ∃ front back, Utf8.encode key = Utf8.encode stem ++ front ++ Utf8.encode delimiter ++ back ∧
    cut = Utf8.encode stem ++ front ++ Utf8.encode delimiter ∧
    ∀ front' back', Utf8.encode key = Utf8.encode stem ++ front' ++ Utf8.encode delimiter ++ back' →
      front.length ≤ front'.length

theorem length_le_iff_size_le {a b x y : String} (h : a ++ x = b ++ y) :
    a.length ≤ b.length ↔ (Utf8.encode a).length ≤ (Utf8.encode b).length := by
  have hlists : a.toList ++ x.toList = b.toList ++ y.toList := by
    rw [← String.toList_append, h, String.toList_append]
  rcases List.append_eq_append_iff.mp hlists with ⟨cs, hb, _⟩ | ⟨cs, ha, _⟩
  · obtain rfl : b = a ++ String.ofList cs := String.toList_inj.mp (by simp [hb])
    simp [Utf8.length_encode]
  · obtain rfl : a = b ++ String.ofList cs := String.toList_inj.mp (by simp [ha])
    simp [Utf8.length_encode]

/-- Bytes that are cut at a delimiter are a text, since no match of the delimiter's bytes straddles a character. -/
theorem cutsBytes_iff (hd : delimiter ≠ "") :
    CutsBytes stem delimiter key cut ↔ ∃ cp, Utf8.encode cp = cut ∧ RollsUp stem delimiter key cp := by
  have hbytes : ∀ front back, Utf8.encode key = Utf8.encode stem ++ front ++ Utf8.encode delimiter ++ back →
      ∃ f t, key = stem ++ f ++ delimiter ++ t ∧ Utf8.encode f = front := by
    intro front back h
    obtain ⟨s, t, hkey, hs, _⟩ := Utf8.exists_texts_around hd h
    obtain ⟨f, rfl, hf⟩ := Utf8.exists_text_behind hs
    exact ⟨f, t, hkey, hf⟩
  have hcompare : ∀ front front' back back', key = stem ++ front ++ delimiter ++ back →
      key = stem ++ front' ++ delimiter ++ back' →
      (front.length ≤ front'.length ↔ (Utf8.encode front).length ≤ (Utf8.encode front').length) := by
    intro front front' back back' h h'
    have htails : front ++ (delimiter ++ back) = front' ++ (delimiter ++ back') := by
      have hboth := h.symm.trans h'
      simp only [String.append_assoc] at hboth
      exact String.append_right_inj stem |>.mp hboth
    exact length_le_iff_size_le htails
  constructor
  · rintro ⟨front, back, hkey, rfl, hfirst⟩
    obtain ⟨f, t, htext, rfl⟩ := hbytes front back hkey
    refine ⟨stem ++ f ++ delimiter, by rw [Utf8.encode_append, Utf8.encode_append], hd, f, t, htext, rfl, ?_⟩
    intro front' back' h
    rw [hcompare f front' t back' htext h]
    exact hfirst _ (Utf8.encode back') (by rw [h]; simp only [Utf8.encode_append])
  · rintro ⟨cp, rfl, _, front, back, htext, rfl, hfirst⟩
    refine ⟨Utf8.encode front, Utf8.encode back, by rw [htext]; simp only [Utf8.encode_append],
      by simp only [Utf8.encode_append], fun front' back' h => ?_⟩
    obtain ⟨f, t, htext', rfl⟩ := hbytes front' back' h
    rw [← hcompare front f back t htext htext']
    exact hfirst f t htext'

theorem forall_not_rollsUp_iff : (∀ cp, ¬ RollsUp stem delimiter key cp) ↔ rolledUp? stem delimiter key = none := by
  simp only [rollsUp_iff, Option.eq_none_iff_forall_ne_some, ne_eq]

theorem exists_rollsUp_iff (hd : delimiter ≠ "") : (∃ cp, RollsUp stem delimiter key cp) ↔
    ∃ front back, key = stem ++ front ++ delimiter ++ back := by
  constructor
  · rintro ⟨cp, _, front, back, hkey, _⟩
    exact ⟨front, back, hkey⟩
  · rintro ⟨front, back, hkey⟩
    have hplace : ∃ n front back, key = stem ++ front ++ delimiter ++ back ∧ front.length = n :=
      ⟨front.length, front, back, hkey, rfl⟩
    classical
    obtain ⟨front, back, hfirst, hlength⟩ := Nat.find_spec hplace
    refine ⟨stem ++ front ++ delimiter, hd, front, back, hfirst, rfl, fun front' back' h => ?_⟩
    rw [hlength]
    exact Nat.find_min' hplace ⟨front', back', h, rfl⟩

theorem visit_past_iff {q : Query} {seen : List String} :
    visit q seen key = .past ↔ q.stem < key ∧ ¬ Under q.stem key := by
  rw [visit_eq]
  split
  · split
    · simp_all
    · split <;> simp_all
  · split <;> simp_all

theorem visit_entry_iff {q : Query} {seen : List String} :
    visit q seen key = .entry ↔ Under q.stem key ∧ ∀ cp, ¬ RollsUp q.stem q.delimiter key cp := by
  rw [visit_eq, forall_not_rollsUp_iff]
  split
  · split
    · simp_all
    · split <;> simp_all
  · split <;> simp_all

theorem visit_commonPrefix_iff {q : Query} {seen : List String} :
    visit q seen key = .commonPrefix cp ↔ RollsUp q.stem q.delimiter key cp ∧ q.marker < cp ∧ cp ∉ seen := by
  rw [visit_eq, rollsUp_iff]
  split
  · split
    · simp_all
    · rename_i c hc
      have hsame : (rolledUp? q.stem q.delimiter key = some cp) ↔ c = cp := by rw [hc, Option.some_inj]
      rw [hsame]
      split
      · rename_i hold
        refine ⟨nofun, ?_⟩
        rintro ⟨rfl, hmarker, hseen⟩
        exact (hold.elim (not_le_of_gt hmarker) hseen).elim
      · rename_i hnew
        rw [not_or, not_le] at hnew
        rw [Visit.commonPrefix.injEq]
        exact ⟨fun h => ⟨h, h ▸ hnew⟩, fun h => h.1⟩
  · rename_i hu
    have hnone : rolledUp? q.stem q.delimiter key ≠ some cp := fun h => hu (under_of_rolledUp? h)
    split <;> simp [hnone]

/-- How the items of a listing lie to the keys that they stand for, the item of a key being the text it is reported
under: its common prefix, or the key itself. -/
structure ItemsOrdered (stem delimiter : String) : Prop where
  visits : ∀ (q : Query) (seen : List String) (key : String), q.stem = stem → q.delimiter = delimiter →
    (visit q seen key = .past ↔ stem < key ∧ ¬ Under stem key) ∧
    (visit q seen key = .entry ↔ Under stem key ∧ ∀ cp, ¬ RollsUp stem delimiter key cp) ∧
    ∀ cp, visit q seen key = .commonPrefix cp ↔ RollsUp stem delimiter key cp ∧ q.marker < cp ∧ cp ∉ seen
  rolls : ∀ key, (∃ cp, RollsUp stem delimiter key cp) ↔ ∃ front back, key = stem ++ front ++ delimiter ++ back
  item : ∀ key, (∀ cp, RollsUp stem delimiter key cp → markOf stem delimiter key = cp) ∧
    ((∀ cp, ¬ RollsUp stem delimiter key cp) → markOf stem delimiter key = key)
  below : ∀ key, markOf stem delimiter key ≤ key
  monotone : ∀ key other, key < other → markOf stem delimiter key ≤ markOf stem delimiter other
  shared : ∀ key other, key < other → (markOf stem delimiter key = markOf stem delimiter other ↔
    ∃ cp, RollsUp stem delimiter key cp ∧ RollsUp stem delimiter other cp)
  covered : ∀ key cp, RollsUp stem delimiter key cp →
    ∀ other, RollsUp stem delimiter other cp ↔ cp.toList <+: other.toList
  apart : ∀ key other cp, (∀ cp, ¬ RollsUp stem delimiter key cp) → RollsUp stem delimiter other cp → key ≠ cp
  block : ∀ first key last, Under stem first → Under stem last → first ≤ key → key ≤ last → Under stem key
  ended : ∀ key later, stem < key → ¬ Under stem key → key < later → ¬ Under stem later
  boundary : ∀ key cut, CutsBytes stem delimiter key cut ↔
    ∃ cp, Text.Utf8.encode cp = cut ∧ RollsUp stem delimiter key cp

/-- Rolling keys up keeps their order and never joins what lies apart, for delimiters of any characters. -/
theorem items_ordered (hd : delimiter ≠ "") : ItemsOrdered stem delimiter where
  visits := by
    rintro q seen key rfl rfl
    exact ⟨visit_past_iff, visit_entry_iff, fun cp => visit_commonPrefix_iff⟩
  rolls key := exists_rollsUp_iff hd
  item key := ⟨fun cp h => markOf_of_rolledUp? (rollsUp_iff.mp h),
    fun h => markOf_of_not_rolledUp (forall_not_rollsUp_iff.mp h)⟩
  below key := markOf_le
  monotone key other h := markOf_mono h.le
  shared := by
    intro key other h
    constructor
    · intro heq
      obtain ⟨cp, hkey, hother⟩ := rolledUp?_of_markOf_eq h.ne heq
      exact ⟨cp, rollsUp_iff.mpr hkey, rollsUp_iff.mpr hother⟩
    · rintro ⟨cp, hkey, hother⟩
      rw [markOf_of_rolledUp? (rollsUp_iff.mp hkey), markOf_of_rolledUp? (rollsUp_iff.mp hother)]
  covered := by
    intro key cp h other
    rw [rollsUp_iff] at h ⊢
    exact ⟨rolledUp?_isPrefix, rolledUp?_of_isPrefix h⟩
  apart := by
    rintro key other cp hnone h rfl
    exact hnone key (rollsUp_iff.mpr (rolledUp?_self (rollsUp_iff.mp h)))
  block := by
    intro first key last hfirst hlast hle hge
    exact hlast.of_between (hfirst.le.trans hle) hge
  ended := by
    intro key later hkey hnot hlater hunder
    exact hnot (hunder.of_between hkey.le hlater.le)
  boundary key cut := cutsBytes_iff hd

theorem items_of_euros : "€€" ≠ "" ∧ ItemsOrdered "é" "€€" ∧ markOf "é" "€€" "é1€€€2" = "é1€€" ∧
    CutsBytes "é" "€€" "é1€€€2" (Text.Utf8.encode "é1€€") := by
  have hordered : ItemsOrdered "é" "€€" := items_ordered (by decide)
  have hrolls : RollsUp "é" "€€" "é1€€€2" "é1€€" := rollsUp_iff.mpr (by decide)
  exact ⟨by decide, hordered, (hordered.item _).1 _ hrolls, (hordered.boundary _ _).mpr ⟨_, rfl, hrolls⟩⟩

end BucketStore.Listing
