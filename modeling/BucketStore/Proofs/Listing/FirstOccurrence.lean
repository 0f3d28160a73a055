import BucketStore.Proofs.Listing.RollUp

namespace BucketStore.Listing

variable {stem delimiter key cp : String} {d cs cut : List Char}

/-- `cp` is the text of `key` up to and including the first occurrence of the delimiter behind
`stem`. -/
def RollsUp (stem delimiter key cp : String) : Prop :=
  delimiter ≠ "" ∧ ∃ front back, key = stem ++ front ++ delimiter ++ back ∧ cp = stem ++ front ++ delimiter ∧
    ∀ front' back', key = stem ++ front' ++ delimiter ++ back' → front.length ≤ front'.length

theorem first_of_through? (h : through? d cs = some cut) : ∃ front back, cs = front ++ d ++ back ∧
    cut = front ++ d ∧ ∀ front' back', cs = front' ++ d ++ back' → front.length ≤ front'.length := by
  induction cs generalizing cut with
  | nil => simp [through?] at h
  | cons c cs ih =>
      rw [through?] at h
      split at h
      · rename_i hd
        cases h
        obtain ⟨back, hback⟩ := hd
        exact ⟨[], back, hback.symm, rfl, fun _ _ _ => Nat.zero_le _⟩
      · rename_i hd
        obtain ⟨cut, hcut, rfl⟩ := Option.map_eq_some_iff.mp h
        obtain ⟨front, back, rfl, rfl, hfirst⟩ := ih hcut
        refine ⟨c :: front, back, rfl, rfl, fun front' back' heq => ?_⟩
        cases front' with
        | nil => exact absurd ⟨back', heq.symm⟩ hd
        | cons c' front' => exact Nat.succ_le_succ (hfirst front' back' (List.cons.inj heq).2)

theorem through?_of_first {front back : List Char} (hd : d ≠ [])
    (hfirst : ∀ front' back', front ++ d ++ back = front' ++ d ++ back' → front.length ≤ front'.length) :
    through? d (front ++ d ++ back) = some (front ++ d) := by
  induction front with
  | nil =>
      obtain ⟨c, d, rfl⟩ := List.exists_cons_of_ne_nil hd
      exact if_pos (List.prefix_append _ back)
  | cons c front ih =>
      have hlater : ¬ d <+: c :: (front ++ d ++ back) := by
        rintro ⟨back', hback'⟩
        exact absurd (hfirst [] back' hback'.symm) (by simp)
      have htail : through? d (front ++ d ++ back) = some (front ++ d) := by
        refine ih (fun front' back' heq => ?_)
        exact Nat.le_of_succ_le_succ (hfirst (c :: front') back' (congrArg (c :: ·) heq))
      simp only [List.cons_append, through?, if_neg hlater, htail, Option.map_some]

theorem rollsUp_iff : RollsUp stem delimiter key cp ↔ rolledUp? stem delimiter key = some cp := by
  rw [rolledUp?_eq_some_iff, RollsUp]
  refine and_congr_right (fun hd => ?_)
  have hne : delimiter.toList ≠ [] := fun hnil => hd (String.toList_inj.mp hnil)
  constructor
  · rintro ⟨front, back, rfl, rfl, hfirst⟩
    refine ⟨front.toList ++ delimiter.toList ++ back.toList, front.toList ++ delimiter.toList, by simp, ?_, by simp⟩
    refine through?_of_first hne (fun front' back' heq => ?_)
    have hkey : stem ++ front ++ delimiter ++ back = stem ++ String.ofList front' ++ delimiter ++ String.ofList back' :=
      String.toList_inj.mp (by simpa using heq)
    simpa [String.length_toList] using hfirst _ _ hkey
  · rintro ⟨rest, cut, hkey, hcut, hcp⟩
    obtain ⟨front, back, rfl, rfl, hfirst⟩ := first_of_through? hcut
    refine ⟨String.ofList front, String.ofList back, String.toList_inj.mp (by simp [hkey]),
      String.toList_inj.mp (by simp [hcp]), fun front' back' heq => ?_⟩
    have hrest : front ++ delimiter.toList ++ back = front'.toList ++ delimiter.toList ++ back'.toList := by
      have htexts : stem.toList ++ (front ++ delimiter.toList ++ back) =
          stem.toList ++ (front'.toList ++ delimiter.toList ++ back'.toList) := by
        rw [← hkey, heq]
        simp
      exact List.append_cancel_left htexts
    simpa [String.length_toList] using hfirst _ _ hrest

end BucketStore.Listing
