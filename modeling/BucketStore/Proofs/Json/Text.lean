import BucketStore.Json.Text
import Mathlib.Data.List.Forall2

namespace BucketStore.Json

variable {c : Char} {p : Piece} {ps : List Piece} {cs rest : List Char}

def Stands (p : Piece) (c : Char) : Prop := p = .char c ∨ (p = .code c.toNat ∧ c.toNat < 0x20)

theorem fourHex?_control : ∀ n < 0x20, fourHex? '0' '0' (n / 16).digitChar (n % 16).digitChar = some n := by decide

theorem pieces?_plain (hquote : c ≠ '"') (hslash : c ≠ '\\') (hcontrol : ¬ c.toNat < 0x20) :
    pieces? (c :: rest) = (pieces? rest).map (fun (ps, rest) => (.char c :: ps, rest)) := by
  rw [pieces?]
  · rw [if_neg (not_or.mpr ⟨hslash, hcontrol⟩)]
  · exact hquote
  · exact fun _ _ _ _ _ h => absurd h hslash
  · exact fun _ _ h => absurd h hslash

theorem pieces?_short {d : Char} (h : shortEscape? d = some c) :
    pieces? ('\\' :: d :: rest) = (pieces? rest).map (fun (ps, rest) => (.char c :: ps, rest)) := by
  rw [pieces?, h]
  · cases pieces? rest <;> rfl
  · rintro _ _ _ _ _ rfl
    cases h

theorem pieces?_code {n : Nat} (h : n < 0x20) :
    pieces? ('\\' :: 'u' :: '0' :: '0' :: (n / 16).digitChar :: (n % 16).digitChar :: rest) =
      (pieces? rest).map (fun (ps, rest) => (.code n :: ps, rest)) := by
  rw [pieces?, fourHex?_control n h]
  cases pieces? rest <;> rfl

theorem pieces?_escaped (c : Char) : ∃ p, Stands p c ∧
    ∀ rest, pieces? (escaped c ++ rest) = (pieces? rest).map (fun (ps, rest) => (p :: ps, rest)) := by
  rw [escaped]
  split_ifs with hquote hslash _ _ _ _ _ hcontrol
  iterate 7 exact ⟨.char c, .inl rfl, fun _ => pieces?_short (by rw [‹c = _›]; rfl)⟩
  · exact ⟨.code c.toNat, .inr ⟨rfl, hcontrol⟩, fun _ => pieces?_code hcontrol⟩
  · exact ⟨.char c, .inl rfl, fun _ => pieces?_plain hquote hslash hcontrol⟩

theorem pieces?_flatMap (cs : List Char) : ∃ ps, List.Forall₂ Stands ps cs ∧
    ∀ rest, pieces? (cs.flatMap escaped ++ '"' :: rest) = some (ps, rest) := by
  induction cs with
  | nil => exact ⟨[], .nil, fun rest => by rw [List.flatMap_nil, List.nil_append, pieces?]⟩
  | cons c cs ih =>
      obtain ⟨p, hp, hread⟩ := pieces?_escaped c
      obtain ⟨ps, hps, hreads⟩ := ih
      refine ⟨p :: ps, .cons hp hps, fun rest => ?_⟩
      rw [List.flatMap_cons, List.append_assoc, hread, hreads, Option.map_some]

theorem join?_code {n : Nat} (h : n < 0x20) (ps : List Piece) :
    join? (.code n :: ps) = (join? ps).map (Char.ofNat n :: ·) := by
  have hhigh : isHigh n = false := by simp [isHigh]; omega
  have hlow : isLow n = false := by simp [isLow]; omega
  rcases ps with _ | ⟨_ | _, ps⟩ <;> simp [join?, hhigh, hlow]

theorem join?_of_stands (h : List.Forall₂ Stands ps cs) : join? ps = some cs := by
  induction h with
  | nil => rfl
  | cons hp _ ih =>
      rcases hp with rfl | ⟨rfl, hcontrol⟩
      · rw [join?, ih, Option.map_some]
      · rw [join?_code hcontrol, ih, Option.map_some, Char.ofNat_toNat]

theorem readText?_writeText (t : Option String) : ∃ body, writeText t = '"' :: body ∧
    ∀ rest, readText? (body ++ rest) = some (t, rest) := by
  cases t with
  | some s =>
      obtain ⟨ps, hps, hread⟩ := pieces?_flatMap s.toList
      refine ⟨s.toList.flatMap escaped ++ ['"'], rfl, fun rest => ?_⟩
      rw [readText?, List.append_assoc, List.singleton_append, hread, Option.map_some]
      dsimp only
      rw [join?_of_stands hps, Option.map_some, String.ofList_toList]
  | none =>
      have hhalf : fourHex? 'd' '8' '0' '0' = some 0xD800 := by decide
      refine ⟨_, rfl, fun rest => ?_⟩
      simp only [List.cons_append, List.nil_append, readText?, pieces?, hhalf, Option.map_some, join?]
      rfl

end BucketStore.Json
