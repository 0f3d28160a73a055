import BucketStore.Listing.Versions
import BucketStore.Proofs.VersionId
import Mathlib.Data.List.Sort

namespace BucketStore.Listing

section Order

variable {α : Type} {l : List α} {a b : α}

theorem pair_sublist_iff : [a, b].Sublist l ↔ ∃ front back, l = front ++ a :: back ∧ b ∈ back := by
  constructor
  · intro h
    induction l with
    | nil => cases h
    | cons c l ih =>
        cases h with
        | cons _ h =>
            obtain ⟨front, back, rfl, hb⟩ := ih h
            exact ⟨c :: front, back, rfl, hb⟩
        | cons_cons _ h => exact ⟨[], l, rfl, List.singleton_sublist.mp h⟩
  · rintro ⟨front, back, rfl, hb⟩
    exact List.sublist_append_of_sublist_right (List.Sublist.cons_cons a (List.singleton_sublist.mpr hb))

theorem pair_sublist_asymm (hl : l.Nodup) (h : [a, b].Sublist l) : ¬ [b, a].Sublist l := by
  induction l with
  | nil => cases h
  | cons c l ih =>
      obtain ⟨hc, hl⟩ := List.nodup_cons.mp hl
      intro h'
      cases h with
      | cons _ h =>
          cases h' with
          | cons _ h' => exact ih hl h h'
          | cons_cons _ h' => exact hc (h.subset (List.mem_cons_of_mem _ List.mem_cons_self))
      | cons_cons _ h =>
          cases h' with
          | cons _ h' => exact hc (h'.subset (List.mem_cons_of_mem _ List.mem_cons_self))
          | cons_cons _ h' => exact hc (List.singleton_sublist.mp h)

theorem pair_sublist_trans {c : α} (hl : l.Nodup) (hab : [a, b].Sublist l) (hbc : [b, c].Sublist l) :
    [a, c].Sublist l := by
  induction l with
  | nil => cases hab
  | cons d l ih =>
      obtain ⟨hd, hl⟩ := List.nodup_cons.mp hl
      cases hab with
      | cons _ hab =>
          cases hbc with
          | cons _ hbc => exact (ih hl hab hbc).cons d
          | cons_cons _ hbc => exact absurd (hab.subset (List.mem_cons_of_mem _ List.mem_cons_self)) hd
      | cons_cons _ hb =>
          cases hbc with
          | cons _ hbc =>
              exact List.Sublist.cons_cons _
                (List.singleton_sublist.mpr (hbc.subset (List.mem_cons_of_mem _ List.mem_cons_self)))
          | cons_cons _ hbc => exact absurd (List.singleton_sublist.mp hb) hd

theorem pair_sublist_total (ha : a ∈ l) (hb : b ∈ l) (hne : a ≠ b) : [a, b].Sublist l ∨ [b, a].Sublist l := by
  obtain ⟨front, back, rfl⟩ := List.append_of_mem ha
  rcases List.mem_append.mp hb with hb | hb
  · obtain ⟨front', mid, rfl⟩ := List.append_of_mem hb
    refine .inr (pair_sublist_iff.mpr ⟨front', mid ++ a :: back, by simp, ?_⟩)
    exact List.mem_append_right _ List.mem_cons_self
  · rcases List.mem_cons.mp hb with rfl | hb
    · exact absurd rfl hne
    · exact .inl (pair_sublist_iff.mpr ⟨front, back, rfl, hb⟩)

theorem pair_sublist_of_sublist {l' : List α} (hl : l.Nodup) (hsub : l'.Sublist l) (h : [a, b].Sublist l)
    (ha : a ∈ l') (hb : b ∈ l') : [a, b].Sublist l' := by
  have hne : a ≠ b := fun heq => pair_sublist_asymm hl h (heq ▸ h)
  exact (pair_sublist_total ha hb hne).resolve_right (fun h' => pair_sublist_asymm hl h (h'.trans hsub))

theorem eq_of_mem_iff_of_asymm {r : α → α → Prop} (asymm : ∀ a b, r a b → ¬ r b a) {l' : List α}
    (hl : l.Pairwise r) (hl' : l'.Pairwise r) (hmem : ∀ i, i ∈ l ↔ i ∈ l') : l = l' := by
  have hirrefl : Std.Irrefl r := ⟨fun a h => asymm a a h h⟩
  have hantisymm : Std.Antisymm r := ⟨fun a b h h' => absurd h' (asymm a b h)⟩
  exact hl.eq_of_mem_iff hl' hmem

/-- What stands behind `x` in an ordered list is told by the order. -/
theorem eq_back_of_mem_iff {r : α → α → Prop} (asymm : ∀ a b, r a b → ¬ r b a) {front back other : List α}
    {x : α} (hl : (front ++ x :: back).Pairwise r) (hother : other.Pairwise r)
    (hmem : ∀ i, i ∈ other ↔ i ∈ front ++ x :: back ∧ r x i) : other = back := by
  obtain ⟨_, hback, hcross⟩ := List.pairwise_append.mp hl
  obtain ⟨hx, hback⟩ := List.pairwise_cons.mp hback
  refine eq_of_mem_iff_of_asymm asymm hother hback (fun i => (hmem i).trans ⟨?_, ?_⟩)
  · rintro ⟨hi, hxi⟩
    rcases List.mem_append.mp hi with hi | hi
    · exact absurd hxi (asymm i x (hcross i hi x List.mem_cons_self))
    · rcases List.mem_cons.mp hi with rfl | hi
      · exact absurd hxi (fun h => asymm i i h h)
      · exact hi
  · exact fun hi => ⟨List.mem_append_right _ (List.mem_cons_of_mem _ hi), hx i hi⟩

theorem mem_takeWhile_iff {p : α → Bool} (hl : l.Nodup) :
    a ∈ l.takeWhile p ↔ a ∈ l ∧ p a = true ∧ ∀ b, [b, a].Sublist l → p b = true := by
  induction l with
  | nil => simp
  | cons c l ih =>
      obtain ⟨hc, hl⟩ := List.nodup_cons.mp hl
      rw [List.takeWhile_cons]
      constructor
      · intro h
        split at h
        · rename_i hp
          rcases List.mem_cons.mp h with rfl | h
          · refine ⟨List.mem_cons_self, hp, fun b hb => ?_⟩
            cases hb with
            | cons _ hb => exact absurd (hb.subset (List.mem_cons_of_mem _ List.mem_cons_self)) hc
            | cons_cons _ hb => exact absurd (List.singleton_sublist.mp hb) hc
          · obtain ⟨hmem, hpa, hbefore⟩ := (ih hl).mp h
            refine ⟨List.mem_cons_of_mem _ hmem, hpa, fun b hb => ?_⟩
            cases hb with
            | cons _ hb => exact hbefore b hb
            | cons_cons _ hb => exact hp
        · cases h
      · rintro ⟨hmem, hpa, hbefore⟩
        rcases List.mem_cons.mp hmem with rfl | hmem
        · rw [if_pos hpa]
          exact List.mem_cons_self
        · have hp : p c = true := hbefore c (List.Sublist.cons_cons c (List.singleton_sublist.mpr hmem))
          rw [if_pos hp]
          exact List.mem_cons_of_mem _ ((ih hl).mpr ⟨hmem, hpa, fun b hb => hbefore b (hb.cons c)⟩)

end Order

variable {marker : String} {rows : List VersionRow}

theorem map_version_historyRows (h : History) : (historyRows h).map VersionRow.version = h := by
  cases h with
  | nil => rfl
  | cons v older => simp [historyRows, Function.comp_def]

theorem resumeAfter_split {front back : List VersionRow} {r : VersionRow}
    (hfront : ∀ a ∈ front, a.version.idOrNull ≠ r.version.idOrNull) :
    resumeAfter r.version.idOrNull (front ++ r :: back) = back := by
  have hany : (front ++ r :: back).any (fun a => a.version.idOrNull = r.version.idOrNull) = true := by
    simp
  rw [resumeAfter, if_pos hany, List.dropWhile_append_of_pos (by simpa using hfront)]
  simp

theorem resumeAfter_gone (hgone : ∀ a ∈ rows, a.version.idOrNull ≠ marker) :
    resumeAfter marker rows = if marker = VersionId.null then rows
      else rows.dropWhile (fun r => !VersionId.olderThan r.version.idOrNull marker) := by
  have hany : ¬ rows.any (fun a => a.version.idOrNull = marker) = true := by
    simpa using hgone
  rw [resumeAfter, if_neg hany]

theorem resumeAfter_suffix (marker : String) (rows : List VersionRow) : resumeAfter marker rows <:+ rows := by
  rw [resumeAfter]
  split
  · exact (List.drop_suffix _ _).trans (List.dropWhile_suffix _)
  · split
    · exact List.suffix_rfl
    · exact List.dropWhile_suffix _

end BucketStore.Listing
