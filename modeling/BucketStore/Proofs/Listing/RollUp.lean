import BucketStore.Listing.Walk
import Mathlib.Data.String.Basic

namespace BucketStore.Listing

variable {stem delimiter key other cp : String}

def Under (stem key : String) : Prop := stem.toList <+: key.toList

instance (stem key : String) : Decidable (Under stem key) :=
  inferInstanceAs (Decidable (stem.toList <+: key.toList))

def rolledUp? (stem delimiter key : String) : Option String :=
  (after? stem.toList key.toList).bind (rollUp? stem delimiter)

/-- The text under which a listing reports `key`: its common prefix, or the key itself. -/
def markOf (stem delimiter key : String) : String := (rolledUp? stem delimiter key).getD key

/-- Texts that start with `c` lie together in the order of texts. -/
theorem prefix_of_between {c a b : List Char} (h : c <+: b) (hca : ¬ a < c) (hab : ¬ b < a) : c <+: a := by
  induction c generalizing a b with
  | nil => exact List.nil_prefix
  | cons x c ih =>
      obtain ⟨b, rfl, hb⟩ : ∃ b', b = x :: b' ∧ c <+: b' := by
        obtain ⟨t, rfl⟩ := h
        exact ⟨c ++ t, rfl, List.prefix_append c t⟩
      cases a with
      | nil => exact absurd (List.nil_lt_cons x c) hca
      | cons y a =>
          rw [List.cons_lt_cons_iff, not_or, not_and] at hca hab
          obtain rfl : x = y := le_antisymm (not_lt.mp hca.1) (not_lt.mp hab.1)
          exact List.cons_prefix_cons.mpr ⟨rfl, ih hb (hca.2 rfl) (hab.2 rfl)⟩

theorem le_of_prefix (h : key.toList <+: other.toList) : key ≤ other :=
  not_lt.mp (fun hlt => List.IsPrefix.le h (String.lt_iff_toList_lt.mp hlt))

theorem through?_isPrefix {d cs cut : List Char} (h : through? d cs = some cut) : cut <+: cs := by
  induction cs generalizing cut with
  | nil => simp [through?] at h
  | cons c cs ih =>
      rw [through?] at h
      split at h
      · cases h; assumption
      · obtain ⟨cut', hcut, rfl⟩ := Option.map_eq_some_iff.mp h
        exact List.cons_prefix_cons.mpr ⟨rfl, ih hcut⟩

theorem length_le_through? {d cs cut : List Char} (h : through? d cs = some cut) :
    d.length ≤ cut.length := by
  induction cs generalizing cut with
  | nil => simp [through?] at h
  | cons c cs ih =>
      rw [through?] at h
      split at h
      · cases h; exact le_rfl
      · obtain ⟨cut', hcut, rfl⟩ := Option.map_eq_some_iff.mp h
        exact (ih hcut).trans (Nat.le_succ _)

/-- A first occurrence is one in every text with the same beginning, since an earlier one there
would already lie within that beginning. -/
theorem through?_of_isPrefix {d cs cut ds : List Char} (hd : d ≠ []) (h : through? d cs = some cut)
    (hp : cut <+: ds) : through? d ds = some cut := by
  induction cs generalizing cut ds with
  | nil => simp [through?] at h
  | cons c cs ih =>
      rw [through?] at h
      split at h
      · cases h
        cases ds with
        | nil => exact absurd (List.prefix_nil.mp hp) hd
        | cons x ds => rw [through?, if_pos hp]
      · rename_i hn
        obtain ⟨cut', hcut, rfl⟩ := Option.map_eq_some_iff.mp h
        obtain ⟨ds, rfl, hp'⟩ : ∃ ds', ds = c :: ds' ∧ cut' <+: ds' := by
          obtain ⟨t, rfl⟩ := hp
          exact ⟨cut' ++ t, rfl, List.prefix_append _ t⟩
        have hn' : ¬ d <+: c :: ds := by
          intro hdc
          have hle : d.length ≤ (c :: cut').length := (length_le_through? hcut).trans (Nat.le_succ _)
          exact hn ((List.prefix_of_prefix_length_le hdc hp hle).trans
            (List.cons_prefix_cons.mpr ⟨rfl, through?_isPrefix hcut⟩))
        rw [through?, if_neg hn', ih hcut hp', Option.map_some]

theorem Under.le (h : Under stem key) : stem ≤ key := le_of_prefix h

theorem prefix_of_le (h : cp.toList <+: other.toList) (hcp : cp ≤ key) (ho : key ≤ other) :
    cp.toList <+: key.toList :=
  prefix_of_between h (fun hlt => not_lt.mpr hcp (String.lt_iff_toList_lt.mpr hlt))
    (fun hlt => not_lt.mpr ho (String.lt_iff_toList_lt.mpr hlt))

theorem Under.of_between (h : Under stem other) (hk : stem ≤ key) (ho : key ≤ other) : Under stem key :=
  prefix_of_le h hk ho

theorem after?_eq_some_iff {stem key rest : List Char} : after? stem key = some rest ↔ key = stem ++ rest := by
  rw [after?]
  constructor
  · intro h
    split at h
    · rename_i hp
      cases h
      exact (List.prefix_iff_eq_append.mp hp).symm
    · cases h
  · rintro rfl
    simp

theorem rolledUp?_eq_some_iff : rolledUp? stem delimiter key = some cp ↔ delimiter ≠ "" ∧
    ∃ rest cut, key.toList = stem.toList ++ rest ∧ through? delimiter.toList rest = some cut ∧
      cp.toList = stem.toList ++ cut := by
  simp only [rolledUp?, Option.bind_eq_some_iff, after?_eq_some_iff, rollUp?]
  constructor
  · rintro ⟨rest, hk, h⟩
    split at h
    · cases h
    · rename_i hd
      obtain ⟨cut, hcut, rfl⟩ := Option.map_eq_some_iff.mp h
      exact ⟨hd, rest, cut, hk, hcut, by simp⟩
  · rintro ⟨hd, rest, cut, hk, hcut, hcp⟩
    refine ⟨rest, hk, ?_⟩
    rw [if_neg hd, hcut, Option.map_some, Option.some_inj]
    exact String.toList_inj.mp (by simp [hcp])

theorem rolledUp?_isPrefix (h : rolledUp? stem delimiter key = some cp) : cp.toList <+: key.toList := by
  obtain ⟨_, rest, cut, hk, hcut, hcp⟩ := rolledUp?_eq_some_iff.mp h
  rw [hk, hcp]
  exact (List.prefix_append_right_inj _).mpr (through?_isPrefix hcut)

theorem rolledUp?_le (h : rolledUp? stem delimiter key = some cp) : cp ≤ key :=
  le_of_prefix (rolledUp?_isPrefix h)

theorem rolledUp?_ne_empty (h : rolledUp? stem delimiter key = some cp) : cp ≠ "" := by
  obtain ⟨hd, rest, cut, _, hcut, hcp⟩ := rolledUp?_eq_some_iff.mp h
  rintro rfl
  have hnil : cut = [] := (List.append_eq_nil_iff.mp hcp.symm).2
  have hlen := length_le_through? hcut
  rw [hnil, List.length_nil, Nat.le_zero, List.length_eq_zero_iff] at hlen
  exact hd (String.toList_inj.mp (by simpa using hlen))

theorem under_of_rolledUp? (h : rolledUp? stem delimiter key = some cp) : Under stem key := by
  obtain ⟨_, rest, _, hk, _, _⟩ := rolledUp?_eq_some_iff.mp h
  exact ⟨rest, hk.symm⟩

theorem rolledUp?_of_isPrefix (h : rolledUp? stem delimiter key = some cp)
    (hp : cp.toList <+: other.toList) : rolledUp? stem delimiter other = some cp := by
  obtain ⟨hd, rest, cut, _, hcut, hcp⟩ := rolledUp?_eq_some_iff.mp h
  obtain ⟨t, ht⟩ := hp
  have hne : delimiter.toList ≠ [] := fun hn => hd (String.toList_inj.mp (by simpa using hn))
  exact rolledUp?_eq_some_iff.mpr ⟨hd, cut ++ t, cut, by rw [← ht, hcp, List.append_assoc],
    through?_of_isPrefix hne hcut (List.prefix_append _ t), hcp⟩

theorem rolledUp?_self (h : rolledUp? stem delimiter key = some cp) :
    rolledUp? stem delimiter cp = some cp :=
  rolledUp?_of_isPrefix h List.prefix_rfl

theorem markOf_prefix : (markOf stem delimiter key).toList <+: key.toList := by
  rw [markOf]
  cases h : rolledUp? stem delimiter key with
  | none => exact List.prefix_rfl
  | some cp => exact rolledUp?_isPrefix h

theorem markOf_le : markOf stem delimiter key ≤ key :=
  le_of_prefix markOf_prefix

theorem markOf_of_rolledUp? (h : rolledUp? stem delimiter key = some cp) :
    markOf stem delimiter key = cp := by
  rw [markOf, h, Option.getD_some]

theorem markOf_of_not_rolledUp (h : rolledUp? stem delimiter key = none) :
    markOf stem delimiter key = key := by
  rw [markOf, h, Option.getD_none]

theorem markOf_mono (h : key ≤ other) : markOf stem delimiter key ≤ markOf stem delimiter other := by
  by_contra hlt
  rw [not_le] at hlt
  have hbetween : (markOf stem delimiter other).toList <+: key.toList :=
    prefix_of_le markOf_prefix (hlt.le.trans markOf_le) h
  cases ho : rolledUp? stem delimiter other with
  | none =>
      rw [markOf_of_not_rolledUp ho] at hlt
      exact absurd (markOf_le.trans h) (not_le_of_gt hlt)
  | some cp =>
      rw [markOf_of_rolledUp? ho] at hbetween hlt
      rw [markOf_of_rolledUp? (rolledUp?_of_isPrefix ho hbetween)] at hlt
      exact lt_irrefl _ hlt

/-- Only keys under one common prefix share their mark. -/
theorem rolledUp?_of_markOf_eq (hne : key ≠ other)
    (h : markOf stem delimiter key = markOf stem delimiter other) :
    ∃ cp, rolledUp? stem delimiter key = some cp ∧ rolledUp? stem delimiter other = some cp := by
  cases hk : rolledUp? stem delimiter key with
  | some cp =>
      have hp : cp.toList <+: other.toList := by
        rw [← markOf_of_rolledUp? hk, h]
        exact markOf_prefix
      exact ⟨cp, rfl, rolledUp?_of_isPrefix hk hp⟩
  | none =>
      cases ho : rolledUp? stem delimiter other with
      | none =>
          rw [markOf_of_not_rolledUp hk, markOf_of_not_rolledUp ho] at h
          exact absurd h hne
      | some cp =>
          have hkey : key = cp := by rw [← markOf_of_not_rolledUp hk, h, markOf_of_rolledUp? ho]
          rw [hkey, rolledUp?_self ho] at hk
          cases hk

end BucketStore.Listing
