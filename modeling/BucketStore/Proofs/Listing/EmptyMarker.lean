import BucketStore.Proofs.Listing.Pages

namespace BucketStore.Listing

variable {α : Type} {stem delimiter : String} {cap : Nat} {own rest : List (Item α)}
  {keyed : List (String × List α)}

theorem Page.truncated_of_nextMarker {p : Page α} {marker : String} (h : p.nextMarker = some marker) :
    p.truncated = true := by
  by_contra hend
  rw [Page.nextMarker, if_neg hend] at h
  cases h

theorem Page.exists_of_nextMarker {p : Page α} {marker : String} (h : p.nextMarker = some marker) :
    ∃ i ∈ p.items, i.mark = marker := by
  rw [Page.nextMarker, if_pos (Page.truncated_of_nextMarker h)] at h
  obtain ⟨i, hi, hmark⟩ := Option.map_eq_some_iff.mp h
  exact ⟨i, List.mem_of_getLast? hi, hmark⟩

theorem Page.cut_goes_on {l : List (Item α)} (h : ∀ i ∈ l, i.mark ≠ "") : (Page.cut cap l).nextMarker ≠ some "" := by
  intro hmarker
  obtain ⟨i, hi, hmark⟩ := Page.exists_of_nextMarker hmarker
  exact h i (List.mem_of_mem_take hi) hmark

theorem Page.cut_nextMarker_empty_iff (hcap : 1 ≤ cap) (hown : ∀ i ∈ own, i.mark = "")
    (hrest : ∀ i ∈ rest, i.mark ≠ "") :
    (Page.cut cap (own ++ rest)).nextMarker = some "" ↔ cap ≤ own.length ∧ (cap < own.length ∨ rest ≠ []) := by
  have hmore : (Page.cut cap (own ++ rest)).truncated = true ↔ cap < own.length + rest.length := by
    rw [← List.length_append]
    exact decide_eq_true_iff
  constructor
  · intro h
    have htruncated := Page.truncated_of_nextMarker h
    obtain ⟨front, x, back, hsplit, _, hmarker, hlength⟩ := Page.cut_truncated hcap htruncated
    have hx : x.mark = "" := Option.some.inj (hmarker.symm.trans h)
    have hle : cap ≤ own.length := by
      by_contra hlt
      have hget : (own ++ rest)[front.length]? = some x := by simp [hsplit]
      rw [List.getElem?_append_right (by omega)] at hget
      exact hrest x (List.mem_of_getElem? hget) hx
    refine ⟨hle, ?_⟩
    rcases hle.lt_or_eq with hlt | rfl
    · exact .inl hlt
    · refine .inr (fun hnil => ?_)
      have hlt := hmore.mp htruncated
      rw [hnil, List.length_nil] at hlt
      exact lt_irrefl _ hlt
  · rintro ⟨hle, hmany⟩
    have htruncated : (Page.cut cap (own ++ rest)).truncated = true := by
      refine hmore.mpr ?_
      rcases hmany with hlt | hne
      · exact hlt.trans_le (Nat.le_add_right _ _)
      · exact Nat.lt_of_le_of_lt hle (Nat.lt_add_of_pos_right (List.length_pos_iff.mpr hne))
    obtain ⟨front, x, back, hsplit, _, hmarker, hlength⟩ := Page.cut_truncated hcap htruncated
    have hget : (own ++ rest)[front.length]? = some x := by simp [hsplit]
    rw [List.getElem?_append_left (by omega)] at hget
    rw [hmarker, hown x (List.mem_of_getElem? hget)]

theorem rolledUp?_empty (stem delimiter : String) : rolledUp? stem delimiter "" = none := by
  cases hr : rolledUp? stem delimiter "" with
  | none => rfl
  | some cp => exact absurd (List.prefix_nil.mp (rolledUp?_isPrefix hr)) (by simpa using rolledUp?_ne_empty hr)

theorem under_empty_iff : Under stem "" ↔ stem = "" := by
  rw [Under]
  constructor
  · exact fun h => String.toList_inj.mp (List.prefix_nil.mp h)
  · rintro rfl
    exact List.prefix_rfl

theorem under_empty_stem (key : String) : Under "" key := List.nil_prefix

theorem mark_ne_empty_of_keys (hkeys : stem = "" → ∀ e ∈ keyed, e.1 ≠ "") :
    ∀ i ∈ items stem delimiter keyed, i.mark ≠ "" := by
  intro i hi
  cases i with
  | row key a =>
      obtain ⟨hu, _, rows, hmem, _⟩ := mem_items_row.mp hi
      rintro rfl
      exact hkeys (under_empty_iff.mp hu) _ hmem rfl
  | commonPrefix cp =>
      obtain ⟨e, _, hr⟩ := mem_items_commonPrefix.mp hi
      exact rolledUp?_ne_empty hr

theorem cut_items_nextMarker_empty_iff (hcap : 1 ≤ cap) (asc : keyed.Pairwise (fun a b => a.1 < b.1))
    (hrows : ∀ e ∈ keyed, e.2 ≠ []) :
    (Page.cut cap (items stem delimiter keyed)).nextMarker = some "" ↔ stem = "" ∧
      ∃ rows, ("", rows) ∈ keyed ∧ cap ≤ rows.length ∧ (cap < rows.length ∨ ∃ e ∈ keyed, e.1 ≠ "") := by
  by_cases hfirst : stem = "" ∧ ∃ rows, ("", rows) ∈ keyed
  · obtain ⟨rfl, rows, hmem⟩ := hfirst
    obtain ⟨tail, rfl⟩ : ∃ tail, keyed = ("", rows) :: tail := by
      cases keyed with
      | nil => cases hmem
      | cons e tail =>
          rcases List.mem_cons.mp hmem with rfl | htail
          · exact ⟨tail, rfl⟩
          · exact absurd ((List.pairwise_cons.mp asc).1 _ htail) (not_lt_of_ge (under_empty_stem e.1).le)
    have htail : ∀ e ∈ tail, e.1 ≠ "" := fun e he => ((List.pairwise_cons.mp asc).1 e he).ne'
    have hitems : items "" delimiter (("", rows) :: tail) =
        rows.map (.row "") ++ items "" delimiter tail := by
      rw [items, if_pos (under_empty_stem ""), rolledUp?_empty]
    have hown : ∀ i ∈ rows.map (Item.row ""), i.mark = "" := by
      intro i hi
      obtain ⟨a, _, rfl⟩ := List.mem_map.mp hi
      rfl
    have hsome : items "" delimiter tail ≠ [] ↔ ∃ e ∈ ("", rows) :: tail, e.1 ≠ "" := by
      constructor
      · intro hne
        cases tail with
        | nil => exact absurd rfl hne
        | cons e tail =>
            exact ⟨e, List.mem_cons_of_mem _ List.mem_cons_self, htail e List.mem_cons_self⟩
      · rintro ⟨e, he, hne⟩
        have he : e ∈ tail := (List.mem_cons.mp he).resolve_left (fun heq => hne (by rw [heq]))
        have hcovers : ∃ i ∈ items "" delimiter tail, i.covers "" delimiter e.1 = true :=
          exists_covers (under_empty_stem e.1) he (hrows e (List.mem_cons_of_mem _ he))
        obtain ⟨i, hi, _⟩ := hcovers
        exact List.ne_nil_of_mem hi
    rw [hitems, Page.cut_nextMarker_empty_iff hcap hown (mark_ne_empty_of_keys (fun _ => htail)), hsome,
      List.length_map]
    constructor
    · rintro ⟨hle, hmany⟩
      exact ⟨rfl, rows, List.mem_cons_self, hle, hmany⟩
    · rintro ⟨_, rows', hmem', hle, hmany⟩
      rcases List.mem_cons.mp hmem' with heq | hmem'
      · cases heq
        exact ⟨hle, hmany⟩
      · exact absurd rfl (htail _ hmem')
  · have hmarks : ∀ i ∈ items stem delimiter keyed, i.mark ≠ "" := by
      refine mark_ne_empty_of_keys (fun hstem => ?_)
      rintro ⟨key, rows⟩ he rfl
      exact hfirst ⟨hstem, rows, he⟩
    refine iff_of_false (Page.cut_goes_on hmarks) ?_
    rintro ⟨hstem, rows, hmem, _⟩
    exact hfirst ⟨hstem, rows, hmem⟩

end BucketStore.Listing
