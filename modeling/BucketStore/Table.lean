namespace BucketStore

/-- A finite map as its list of entries, keys strictly ascending. Equal lookups give equal tables,
so two ways of filling a table can be compared by `=`. -/
structure Table (κ ν : Type) [LT κ] where
  entries : List (κ × ν)
  ascending : entries.Pairwise (fun a b => a.1 < b.1)
deriving DecidableEq

namespace Table

variable {κ ν μ : Type} [LT κ] [LE κ] [Std.IsLinearOrder κ] [Std.LawfulOrderLT κ] [DecidableLT κ] [DecidableEq κ]

def place (k : κ) (v : ν) : List (κ × ν) → List (κ × ν)
  | [] => [(k, v)]
  | e :: rest =>
    if k < e.1 then (k, v) :: e :: rest
    else if k = e.1 then (k, v) :: rest
    else e :: place k v rest

omit [LE κ] [Std.IsLinearOrder κ] [Std.LawfulOrderLT κ] in
theorem mem_place {k : κ} {v : ν} {l : List (κ × ν)} {a : κ × ν} (h : a ∈ place k v l) :
    a = (k, v) ∨ a ∈ l := by
  induction l with
  | nil => simpa [place] using h
  | cons e rest ih =>
      rw [place] at h
      split at h
      · simpa using h
      · split at h
        · rcases List.mem_cons.mp h with h | h
          · exact .inl h
          · exact .inr (List.mem_cons_of_mem _ h)
        · rcases List.mem_cons.mp h with h | h
          · exact .inr (h ▸ List.mem_cons_self)
          · exact (ih h).imp id (List.mem_cons_of_mem _)

theorem place_ascending (k : κ) (v : ν) {l : List (κ × ν)} (h : l.Pairwise (fun a b => a.1 < b.1)) :
    (place k v l).Pairwise (fun a b => a.1 < b.1) := by
  induction l with
  | nil => simp [place]
  | cons e rest ih =>
      obtain ⟨he, hr⟩ := List.pairwise_cons.mp h
      rw [place]
      split
      · rename_i hk
        refine List.pairwise_cons.mpr ⟨fun a ha => ?_, h⟩
        rcases List.mem_cons.mp ha with rfl | ha
        · exact hk
        · exact Std.lt_trans hk (he a ha)
      · rename_i hk
        split
        · rename_i heq
          exact List.pairwise_cons.mpr ⟨fun a ha => by simpa [heq] using he a ha, hr⟩
        · rename_i hne
          refine List.pairwise_cons.mpr ⟨fun a ha => ?_, ih hr⟩
          rcases mem_place ha with rfl | ha
          · exact (Std.lt_trichotomy e.1 k).elim id (fun h' => h'.elim (fun h' => absurd h'.symm hne)
              (fun h' => absurd h' hk))
          · exact he a ha

def empty : Table κ ν := ⟨[], .nil⟩

def find (k : κ) : List (κ × ν) → Option ν
  | [] => none
  | e :: rest => if k = e.1 then some e.2 else find k rest

def get? (t : Table κ ν) (k : κ) : Option ν := find k t.entries

def insert (t : Table κ ν) (k : κ) (v : ν) : Table κ ν :=
  ⟨place k v t.entries, place_ascending k v t.ascending⟩

def erase (t : Table κ ν) (k : κ) : Table κ ν :=
  ⟨t.entries.filter (fun e => e.1 ≠ k), t.ascending.filter _⟩

def map (f : ν → μ) (t : Table κ ν) : Table κ μ :=
  ⟨t.entries.map (fun e => (e.1, f e.2)), List.pairwise_map.mpr t.ascending⟩

def ofList (l : List (κ × ν)) : Table κ ν := l.foldl (fun t e => t.insert e.1 e.2) empty

def contains (t : Table κ ν) (k : κ) : Bool := (t.get? k).isSome

def keys (t : Table κ ν) : List κ := t.entries.map Prod.fst

def values (t : Table κ ν) : List ν := t.entries.map Prod.snd

def size (t : Table κ ν) : Nat := t.entries.length

omit [LE κ] [Std.IsLinearOrder κ] [Std.LawfulOrderLT κ] in
theorem find_place (k j : κ) (v : ν) (l : List (κ × ν)) :
    find j (place k v l) = if j = k then some v else find j l := by
  induction l with
  | nil => simp [place, find]
  | cons e rest ih =>
      rw [place]
      split
      · simp [find]
      · split
        · rename_i hk
          by_cases h : j = k <;> simp_all [find]
        · by_cases h : j = e.1 <;> simp_all [find, eq_comm]

theorem get?_insert (t : Table κ ν) (k j : κ) (v : ν) :
    (t.insert k v).get? j = if j = k then some v else t.get? j :=
  find_place k j v t.entries

omit [LE κ] [Std.IsLinearOrder κ] [Std.LawfulOrderLT κ] [DecidableLT κ] in
theorem get?_erase (t : Table κ ν) (k j : κ) :
    (t.erase k).get? j = if j = k then none else t.get? j := by
  simp only [get?, erase]
  generalize t.entries = l
  induction l with
  | nil => simp [find]
  | cons e rest ih =>
      by_cases he : e.1 = k <;> by_cases hj : j = e.1 <;> simp_all [find]

omit [LE κ] [Std.IsLinearOrder κ] [Std.LawfulOrderLT κ] [DecidableLT κ] in
theorem get?_map (f : ν → μ) (t : Table κ ν) (k : κ) : (t.map f).get? k = (t.get? k).map f := by
  simp only [get?, map]
  generalize t.entries = l
  induction l with
  | nil => rfl
  | cons e rest ih => by_cases h : k = e.1 <;> simp_all [find]

omit [LT κ] [LE κ] [Std.IsLinearOrder κ] [Std.LawfulOrderLT κ] [DecidableLT κ] in
theorem find_eq_none {k : κ} {l : List (κ × ν)} (h : ∀ e ∈ l, e.1 ≠ k) : find k l = none := by
  induction l with
  | nil => rfl
  | cons e rest ih =>
      rw [find, if_neg (Ne.symm (h e List.mem_cons_self))]
      exact ih (fun a ha => h a (List.mem_cons_of_mem _ ha))

omit [DecidableLT κ] in
theorem eq_of_find {l m : List (κ × ν)} (hl : l.Pairwise (fun a b => a.1 < b.1))
    (hm : m.Pairwise (fun a b => a.1 < b.1)) (h : ∀ k, find k l = find k m) : l = m := by
  induction l generalizing m with
  | nil =>
      cases m with
      | nil => rfl
      | cons e rest => simpa [find] using h e.1
  | cons e rest ih =>
      cases m with
      | nil => simpa [find] using h e.1
      | cons f rest' =>
          obtain ⟨he, hr⟩ := List.pairwise_cons.mp hl
          obtain ⟨hf, hr'⟩ := List.pairwise_cons.mp hm
          have key : e.1 = f.1 := by
            rcases Std.lt_trichotomy e.1 f.1 with hlt | heq | hlt
            · have absent : find e.1 (f :: rest') = none := find_eq_none (fun a ha => by
                rcases List.mem_cons.mp ha with rfl | ha
                · exact fun hc => Std.lt_irrefl (hc ▸ hlt)
                · exact fun hc => Std.lt_irrefl (hc ▸ Std.lt_trans hlt (hf a ha)))
              rw [← h e.1] at absent
              simp [find] at absent
            · exact heq
            · have absent : find f.1 (e :: rest) = none := find_eq_none (fun a ha => by
                rcases List.mem_cons.mp ha with rfl | ha
                · exact fun hc => Std.lt_irrefl (hc ▸ hlt)
                · exact fun hc => Std.lt_irrefl (hc ▸ Std.lt_trans hlt (he a ha)))
              rw [h f.1] at absent
              simp [find] at absent
          have value : e.2 = f.2 := by simpa [find, key] using h e.1
          have tails : rest = rest' := ih hr hr' (fun k => by
            by_cases hk : k = e.1
            · rw [find_eq_none (fun a ha hc => Std.lt_irrefl (hc ▸ hk ▸ he a ha)),
                find_eq_none (fun a ha hc => Std.lt_irrefl (hc ▸ hk ▸ key ▸ hf a ha))]
            · simpa [find, hk, key ▸ hk] using h k)
          rw [Prod.ext key value, tails]

omit [DecidableLT κ] in
theorem eq_of_get? {t u : Table κ ν} (h : ∀ k, t.get? k = u.get? k) : t = u := by
  obtain ⟨l, hl⟩ := t
  obtain ⟨m, hm⟩ := u
  simpa using eq_of_find hl hm h

end Table

end BucketStore
