import BucketStore.StoreError
import BucketStore.Upload
import Mathlib.Data.List.Basic

namespace BucketStore

def Upload.ChoiceError.refusal (uploadId : String) : ChoiceError → StoreError
  | outOfOrder => .invalidPartOrder uploadId
  | notStored number => .invalidPart uploadId number

/-- What is left of a tag that stands between two quotes. Any other tag is left as it is. -/
def EntityTag.Bare (tag bare : String) : Prop :=
  tag = "\"" ++ bare ++ "\"" ∨ (∀ t, tag ≠ "\"" ++ t ++ "\"") ∧ bare = tag

theorem EntityTag.unquote_quoted (bare : String) : unquote ("\"" ++ bare ++ "\"") = bare := by
  have hlist : ("\"" ++ bare ++ "\"").toList = '"' :: (bare.toList ++ ['"']) := by simp
  rw [unquote, hlist]
  simp

theorem EntityTag.unquote_of_not_quoted {tag : String} (h : ∀ t, tag ≠ "\"" ++ t ++ "\"") : unquote tag = tag := by
  rw [unquote]
  split
  · rename_i rest hrest
    split
    · rename_i hlast
      refine absurd ?_ (h (String.ofList rest.dropLast))
      rw [← String.toList_inj, hrest, String.toList_append, String.toList_append, String.toList_ofList]
      have hquote := List.dropLast_append_getLast? _ hlast
      simp [hquote]
    · rfl
  · rfl

theorem EntityTag.bare_iff {tag bare : String} : Bare tag bare ↔ unquote tag = bare := by
  by_cases hquoted : ∃ t, tag = "\"" ++ t ++ "\""
  · obtain ⟨t, rfl⟩ := hquoted
    rw [unquote_quoted]
    constructor
    · rintro (h | ⟨hnot, _⟩)
      · rw [← unquote_quoted t, h, unquote_quoted]
      · exact absurd rfl (hnot t)
    · rintro rfl
      exact .inl rfl
  · have hnot : ∀ t, tag ≠ "\"" ++ t ++ "\"" := fun t ht => hquoted ⟨t, ht⟩
    rw [unquote_of_not_quoted hnot]
    constructor
    · rintro (h | ⟨_, h⟩)
      · exact absurd h (hnot bare)
      · exact h.symm
    · rintro rfl
      exact .inr ⟨hnot, rfl⟩

namespace Upload

variable {u : Upload} {choice front rest : List PartChoice} {c : PartChoice} {i : Nat} {parts : List Part}

def OutOfOrder (choice : List PartChoice) (i : Nat) : Prop :=
  ∃ j a c, i = j + 1 ∧ choice[j]? = some a ∧ choice[i]? = some c ∧ c.number ≤ a.number

/-- No part is stored under the number at position `i`, or its tag is another one. -/
def Unmatched (u : Upload) (choice : List PartChoice) (i : Nat) : Prop :=
  ∃ c, choice[i]? = some c ∧ ∀ p, u.part? c.number = some p →
    ∀ bare, EntityTag.Bare p.etag bare → ¬ EntityTag.Bare c.etag bare

def Faulty (u : Upload) (choice : List PartChoice) (i : Nat) : Prop := OutOfOrder choice i ∨ u.Unmatched choice i

def FirstFault (u : Upload) (choice : List PartChoice) (i : Nat) : Prop :=
  u.Faulty choice i ∧ ∀ j < i, ¬ u.Faulty choice j

def Listed (u : Upload) (choice : List PartChoice) (parts : List Part) : Prop :=
  List.Forall₂ (fun c p => u.part? c.number = some p) choice parts

theorem FirstFault.unique {j : Nat} (hi : u.FirstFault choice i) (hj : u.FirstFault choice j) : i = j := by
  rcases Nat.lt_trichotomy i j with hlt | heq | hlt
  · exact absurd hi.1 (hj.2 i hlt)
  · exact heq
  · exact absurd hj.1 (hi.2 j hlt)

theorem Faulty.lt_length (h : u.Faulty choice i) : i < choice.length := by
  rcases h with ⟨_, _, _, _, _, hc, _⟩ | ⟨_, hc, _⟩
  · exact (List.getElem?_eq_some_iff.mp hc).1
  · exact (List.getElem?_eq_some_iff.mp hc).1

/-- What choosing the parts of `rest` says, where the positions of `front` are not looked at again: the parts
if no position is at fault, and otherwise the error of the first that is. -/
def Judged (u : Upload) (front rest : List PartChoice) : Except ChoiceError (List Part) → Prop
  | .ok parts => u.Listed rest parts ∧ ∀ i, front.length ≤ i → ¬ u.Faulty (front ++ rest) i
  | .error cause => ∃ i c, front.length ≤ i ∧ (front ++ rest)[i]? = some c ∧ u.Faulty (front ++ rest) i ∧
      (∀ j, front.length ≤ j → j < i → ¬ u.Faulty (front ++ rest) j) ∧
      (OutOfOrder (front ++ rest) i ∧ cause = .outOfOrder ∨
        ¬ OutOfOrder (front ++ rest) i ∧ cause = .notStored c.number)

theorem outOfOrder_next_iff :
    OutOfOrder (front ++ c :: rest) front.length ↔ (front.getLast?.map (·.number)).any (c.number ≤ ·) = true := by
  have hat : (front ++ c :: rest)[front.length]? = some c := by simp
  constructor
  · rintro ⟨j, a, d, hj, ha, hd, hle⟩
    cases hat.symm.trans hd
    have hlast : front.getLast? = some a := by
      rw [List.getElem?_append_left (by omega)] at ha
      rw [List.getLast?_eq_getElem?, hj, Nat.add_sub_cancel, ha]
    rw [hlast]
    exact decide_eq_true hle
  · intro h
    cases hlast : front.getLast? with
    | none =>
        rw [hlast] at h
        cases h
    | some a =>
        rw [hlast] at h
        obtain ⟨before, rfl⟩ := List.getLast?_eq_some_iff.mp hlast
        refine ⟨before.length, a, c, ?_, ?_, hat, of_decide_eq_true h⟩
        · rw [List.length_append, List.length_singleton]
        · simp

theorem unmatched_next_iff : u.Unmatched (front ++ c :: rest) front.length ↔
    (u.part? c.number).filter (fun p => EntityTag.Same p.etag c.etag) = none := by
  have hat : (front ++ c :: rest)[front.length]? = some c := by simp
  have hsame : ∀ p : Part, (∀ bare, EntityTag.Bare p.etag bare → ¬ EntityTag.Bare c.etag bare) ↔
      ¬ EntityTag.Same p.etag c.etag := by
    intro p
    simp only [EntityTag.bare_iff, EntityTag.Same, forall_eq']
    exact not_congr eq_comm
  rw [Option.filter_eq_none_iff]
  constructor
  · rintro ⟨d, hd, h⟩ p hp
    cases hat.symm.trans hd
    simpa using (hsame p).mp (h p hp)
  · exact fun h => ⟨c, hat, fun p hp => (hsame p).mpr (by simpa using h p hp)⟩

theorem Judged.cons {p : Part} {chosen : Except ChoiceError (List Part)} (hp : u.part? c.number = some p)
    (hfine : ¬ u.Faulty (front ++ c :: rest) front.length) (h : u.Judged (front ++ [c]) rest chosen) :
    u.Judged front (c :: rest) (chosen.map (p :: ·)) := by
  have hsame : front ++ [c] ++ rest = front ++ c :: rest := (List.append_cons front c rest).symm
  have hlength : (front ++ [c]).length = front.length + 1 := List.length_append
  cases chosen with
  | ok parts =>
      obtain ⟨hlisted, hlater⟩ := h
      rw [hsame, hlength] at hlater
      refine ⟨.cons hp hlisted, fun i hi => ?_⟩
      rcases Nat.eq_or_lt_of_le hi with rfl | hi
      · exact hfine
      · exact hlater i hi
  | error cause =>
      obtain ⟨i, d, hi, hd, hfault, hearlier, hcause⟩ := h
      rw [hsame] at hd hfault hearlier hcause
      rw [hlength] at hi hearlier
      refine ⟨i, d, by omega, hd, hfault, fun j hj hji => ?_, hcause⟩
      rcases Nat.eq_or_lt_of_le hj with rfl | hj
      · exact hfine
      · exact hearlier j hj hji

theorem choose_judged (u : Upload) (front rest : List PartChoice) :
    u.Judged front rest (u.choose (front.getLast?.map (·.number)) rest) := by
  induction rest generalizing front with
  | nil =>
      refine ⟨.nil, fun i hi h => ?_⟩
      have hlt := h.lt_length
      rw [List.append_nil] at hlt
      omega
  | cons c rest ih =>
      have hat : (front ++ c :: rest)[front.length]? = some c := by simp
      have hnone : ∀ j, front.length ≤ j → j < front.length → ¬ u.Faulty (front ++ c :: rest) j := by omega
      rw [choose]
      by_cases horder : (front.getLast?.map (·.number)).any (c.number ≤ ·) = true
      · have hfault : OutOfOrder (front ++ c :: rest) front.length := outOfOrder_next_iff.mpr horder
        rw [if_pos horder]
        exact ⟨front.length, c, Nat.le_refl _, hat, .inl hfault, hnone, .inl ⟨hfault, rfl⟩⟩
      · have hordered : ¬ OutOfOrder (front ++ c :: rest) front.length := mt outOfOrder_next_iff.mp horder
        rw [if_neg horder]
        cases hpart : (u.part? c.number).filter (fun p => EntityTag.Same p.etag c.etag) with
        | none =>
            have hfault : u.Unmatched (front ++ c :: rest) front.length := unmatched_next_iff.mpr hpart
            exact ⟨front.length, c, Nat.le_refl _, hat, .inr hfault, hnone, .inr ⟨hordered, rfl⟩⟩
        | some p =>
            have hmatched : ¬ u.Unmatched (front ++ c :: rest) front.length := by
              rw [unmatched_next_iff, hpart]
              exact nofun
            have hlater := ih (front ++ [c])
            rw [List.getLast?_concat, Option.map_some] at hlater
            exact hlater.cons (Option.filter_eq_some_iff.mp hpart).1 (not_or.mpr ⟨hordered, hmatched⟩)

theorem choose_ok (h : u.choose none choice = .ok parts) : u.Listed choice parts ∧ ∀ i, ¬ u.Faulty choice i := by
  have hjudged := choose_judged u [] choice
  rw [List.getLast?_nil, Option.map_none, h] at hjudged
  exact ⟨hjudged.1, fun i => hjudged.2 i (Nat.zero_le i)⟩

theorem choose_error {cause : ChoiceError} (h : u.choose none choice = .error cause) :
    ∃ i c, u.FirstFault choice i ∧ choice[i]? = some c ∧
      (OutOfOrder choice i ∧ cause = .outOfOrder ∨ ¬ OutOfOrder choice i ∧ cause = .notStored c.number) := by
  have hjudged := choose_judged u [] choice
  rw [List.getLast?_nil, Option.map_none, h] at hjudged
  obtain ⟨i, c, _, hc, hfault, hearlier, hcause⟩ := hjudged
  exact ⟨i, c, ⟨hfault, fun j => hearlier j (Nat.zero_le j)⟩, hc, hcause⟩

theorem choose_congr {w : Upload} (h : ∀ c ∈ choice, w.part? c.number = u.part? c.number)
    (previous : Option UInt32) : w.choose previous choice = u.choose previous choice := by
  induction choice generalizing previous with
  | nil => rfl
  | cons c rest ih =>
      obtain ⟨hc, hrest⟩ := List.forall_mem_cons.mp h
      rw [choose, choose, hc, ih hrest]

end Upload

end BucketStore
