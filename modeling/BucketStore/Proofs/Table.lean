import BucketStore.Table

namespace BucketStore.Table

variable {κ ν : Type} [LT κ] [LE κ] [Std.IsLinearOrder κ] [Std.LawfulOrderLT κ] [DecidableLT κ] [DecidableEq κ]

omit [LT κ] [LE κ] [Std.IsLinearOrder κ] [Std.LawfulOrderLT κ] [DecidableLT κ] in
theorem find_eq_some_iff {l : List (κ × ν)} (h : (l.map Prod.fst).Nodup) {k : κ} {v : ν} :
    find k l = some v ↔ (k, v) ∈ l := by
  induction l with
  | nil => simp [find]
  | cons e l ih =>
      obtain ⟨he, hl⟩ := List.nodup_cons.mp h
      rw [find, List.mem_cons, ← ih hl]
      by_cases hk : k = e.1
      · subst hk
        have hn : find e.1 l = none := find_eq_none (fun a ha hc => he (hc ▸ List.mem_map_of_mem ha))
        rw [if_pos rfl, hn, Option.some_inj]
        constructor
        · rintro rfl
          exact .inl rfl
        · rintro (h | h)
          · exact (congrArg Prod.snd h).symm
          · cases h
      · rw [if_neg hk]
        exact ⟨.inr, fun h => h.resolve_left (fun h => hk (congrArg Prod.fst h))⟩

omit [Std.IsLinearOrder κ] [DecidableLT κ] [DecidableEq κ] in
theorem nodup_keys (t : Table κ ν) : (t.entries.map Prod.fst).Nodup := by
  refine List.pairwise_map.mpr (t.ascending.imp (fun {a b} h => ?_))
  exact fun hab => Std.lt_irrefl (hab ▸ h)

omit [Std.IsLinearOrder κ] [DecidableLT κ] in
theorem mem_entries {t : Table κ ν} {k : κ} {v : ν} : (k, v) ∈ t.entries ↔ t.get? k = some v :=
  (find_eq_some_iff t.nodup_keys).symm

theorem map_insert {μ : Type} (f : ν → μ) (t : Table κ ν) (k : κ) (v : ν) :
    (t.insert k v).map f = (t.map f).insert k (f v) := by
  apply eq_of_get?
  intro j
  rw [get?_map, get?_insert, get?_insert, get?_map, apply_ite (Option.map f), Option.map_some]

omit [DecidableLT κ] in
theorem map_erase {μ : Type} (f : ν → μ) (t : Table κ ν) (k : κ) :
    (t.erase k).map f = (t.map f).erase k := by
  apply eq_of_get?
  intro j
  rw [get?_map, get?_erase, get?_erase, get?_map, apply_ite (Option.map f), Option.map_none]

theorem insert_eq_self {t : Table κ ν} {k : κ} {v : ν} (h : t.get? k = some v) : t.insert k v = t := by
  apply eq_of_get?
  intro j
  rw [get?_insert]
  split
  · rename_i hj
    rw [hj, h]
  · rfl

theorem insert_insert (t : Table κ ν) (k : κ) (v w : ν) : (t.insert k v).insert k w = t.insert k w := by
  apply eq_of_get?
  intro j
  rw [get?_insert, get?_insert, get?_insert]
  split <;> rfl

omit [DecidableLT κ] in
theorem erase_eq_self {t : Table κ ν} {k : κ} (h : t.get? k = none) : t.erase k = t := by
  apply eq_of_get?
  intro j
  rw [get?_erase]
  split
  · rename_i hj
    rw [hj, h]
  · rfl

theorem get?_foldl_insert {l : List (κ × ν)} (h : (l.map Prod.fst).Nodup) (t : Table κ ν) (k : κ) :
    (l.foldl (fun t e => t.insert e.1 e.2) t).get? k = (find k l).or (t.get? k) := by
  induction l generalizing t with
  | nil => rfl
  | cons e l ih =>
      obtain ⟨he, hl⟩ := List.nodup_cons.mp h
      rw [List.foldl_cons, ih hl, get?_insert, find]
      by_cases hk : k = e.1
      · have habsent : find k l = none := find_eq_none (fun a ha hc => he (hk ▸ hc ▸ List.mem_map_of_mem ha))
        rw [if_pos hk, if_pos hk, habsent, Option.none_or, Option.some_or]
      · rw [if_neg hk, if_neg hk]

theorem ofList_perm {t : Table κ ν} {l : List (κ × ν)} (h : l.Perm t.entries) : ofList l = t := by
  have hl : (l.map Prod.fst).Nodup := (h.map Prod.fst).nodup_iff.mpr t.nodup_keys
  apply eq_of_get?
  intro k
  rw [ofList, get?_foldl_insert hl]
  have hfind : find k l = t.get? k :=
    Option.ext (fun v => by rw [find_eq_some_iff hl, ← mem_entries, h.mem_iff])
  rw [hfind]
  exact Option.or_none

end BucketStore.Table
