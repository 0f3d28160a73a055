import BucketStore.Proofs.Listing.RollUp
import Mathlib.Data.List.Basic

namespace BucketStore.Listing

variable {α : Type} {stem delimiter : String}

/-- All that a listing of `stem` reports of keyed rows. A common prefix stands where the first of
its keys does, and only there. -/
def items (stem delimiter : String) : List (String × List α) → List (Item α)
  | [] => []
  | (key, rows) :: rest =>
    if Under stem key then
      match rolledUp? stem delimiter key with
      | none => rows.map (.row key) ++ items stem delimiter rest
      | some cp =>
        .commonPrefix cp :: (items stem delimiter rest).filter (fun i => i.commonPrefix? ≠ some cp)
    else items stem delimiter rest

def Page.cut (cap : Nat) (items : List (Item α)) : Page α := ⟨items.take cap, cap < items.length⟩

/-- A row always counts; a common prefix does past the marker, unless it was reported. -/
def unseen (marker : String) (seen : List String) (i : Item α) : Bool :=
  i.commonPrefix?.all (fun cp => marker < cp ∧ cp ∉ seen)

theorem visit_eq (q : Query) (seen : List String) (key : String) :
    visit q seen key =
      if Under q.stem key then
        match rolledUp? q.stem q.delimiter key with
        | none => .entry
        | some cp => if cp ≤ q.marker ∨ cp ∈ seen then .skip else .commonPrefix cp
      else if q.stem < key then .past else .skip := by
  rw [visit, rolledUp?]
  by_cases h : Under q.stem key
  · have ha : after? q.stem.toList key.toList = some (key.toList.drop q.stem.toList.length) := if_pos h
    cases hr : rollUp? q.stem q.delimiter (key.toList.drop q.stem.toList.length) with
    | none => simp only [if_pos h, ha, Option.bind_some, hr]
    | some cp => simp only [if_pos h, ha, Option.bind_some, hr]
  · have ha : after? q.stem.toList key.toList = none := if_neg h
    rw [if_neg h, ha]

theorem items_of_past {key : String} {keyed : List (String × List α)} (hn : ¬ Under stem key)
    (hk : stem < key) (hlt : ∀ e ∈ keyed, key < e.1) : items stem delimiter keyed = [] := by
  induction keyed with
  | nil => rfl
  | cons e rest ih =>
      have he : ¬ Under stem e.1 := fun hu =>
        hn (hu.of_between hk.le (hlt e List.mem_cons_self).le)
      rw [items, if_neg he]
      exact ih (fun a ha => hlt a (List.mem_cons_of_mem _ ha))

theorem filter_unseen_of_dropped {marker cp : String} {seen : List String} (l : List (Item α))
    (h : cp ≤ marker ∨ cp ∈ seen) :
    (l.filter (fun i => i.commonPrefix? ≠ some cp)).filter (unseen marker seen) =
      l.filter (unseen marker seen) := by
  rw [List.filter_filter]
  apply List.filter_congr
  intro i _
  cases hi : i.commonPrefix? with
  | none => simp [unseen, hi]
  | some cp' =>
      by_cases hcp : cp' = cp
      · subst hcp
        have hseen : ¬ (marker < cp' ∧ cp' ∉ seen) := fun hc =>
          h.elim (fun hle => not_lt_of_ge hle hc.1) hc.2
        simp only [unseen, hi, Option.all_some, decide_eq_false hseen, Bool.false_and]
      · simp [hcp]

theorem filter_unseen_cons {marker cp : String} {seen : List String} (l : List (Item α)) :
    (l.filter (fun i => i.commonPrefix? ≠ some cp)).filter (unseen marker seen) =
      l.filter (unseen marker (cp :: seen)) := by
  rw [List.filter_filter]
  apply List.filter_congr
  intro i _
  cases hi : i.commonPrefix? with
  | none => simp [unseen, hi]
  | some cp' =>
      by_cases hcp : cp' = cp
      · simp [unseen, hi, hcp]
      · simp only [unseen, hi, Option.all_some, List.mem_cons, hcp, false_or, ne_eq, Option.some_inj,
          not_false_eq_true, decide_true, Bool.and_true]

theorem Page.cut_append (room : Nat) (front back : List (Item α)) :
    Page.cut room (front ++ back) =
      if room < front.length then ⟨front.take room, true⟩
      else (Page.cut (room - front.length) back).append front := by
  simp only [Page.cut, Page.append]
  split
  · rename_i h
    rw [List.take_append_of_le_length h.le, List.length_append]
    simp only [Page.mk.injEq, true_and, decide_eq_true_eq]
    omega
  · rename_i h
    rw [List.take_append, List.take_of_length_le (not_lt.mp h), List.length_append]
    simp only [Page.mk.injEq, true_and, decide_eq_decide]
    omega

theorem Page.cut_cons (room : Nat) (i : Item α) (back : List (Item α)) :
    Page.cut room (i :: back) =
      if room = 0 then ⟨[], true⟩ else (Page.cut (room - 1) back).append [i] := by
  have h := Page.cut_append room [i] back
  cases room with
  | zero => exact h
  | succ room => simpa using h

/-- A walk over ascending keys cuts a page from what the listing reports. -/
theorem walk_eq_cut (q : Query) {keyed : List (String × List α)}
    (asc : keyed.Pairwise (fun a b => a.1 < b.1)) (room : Nat) (seen : List String) :
    walk q keyed room seen =
      Page.cut room ((items q.stem q.delimiter keyed).filter (unseen q.marker seen)) := by
  induction keyed generalizing room seen with
  | nil => simp [walk, items, Page.cut]
  | cons e rest ih =>
      obtain ⟨key, rows⟩ := e
      obtain ⟨hlt, hasc⟩ := List.pairwise_cons.mp asc
      rw [walk, visit_eq, items]
      by_cases hu : Under q.stem key
      · rw [if_pos hu, if_pos hu]
        cases hr : rolledUp? q.stem q.delimiter key with
        | none =>
            have hrows : (rows.map (Item.row key)).filter (unseen q.marker seen) = rows.map (.row key) := by
              rw [List.filter_eq_self]
              simp [unseen, Item.commonPrefix?]
            simp only [ih hasc, List.filter_append, hrows, Page.cut_append, List.length_map, List.map_take]
        | some cp =>
            by_cases hs : cp ≤ q.marker ∨ cp ∈ seen
            · have hcp : unseen q.marker seen (Item.commonPrefix cp : Item α) = false := by
                simp only [unseen, Item.commonPrefix?, Option.all_some, decide_eq_false_iff_not]
                exact fun hc => hs.elim (fun hle => not_lt_of_ge hle hc.1) hc.2
              simp only [if_pos hs, ih hasc]
              rw [List.filter_cons_of_neg (by rw [hcp]; exact Bool.false_ne_true), filter_unseen_of_dropped _ hs]
            · have hcp : unseen q.marker seen (Item.commonPrefix cp : Item α) = true := by
                simp only [unseen, Item.commonPrefix?, Option.all_some, decide_eq_true_eq]
                exact ⟨not_le.mp (fun h => hs (.inl h)), fun h => hs (.inr h)⟩
              simp only [if_neg hs, ih hasc]
              rw [List.filter_cons_of_pos hcp, filter_unseen_cons, Page.cut_cons]
      · rw [if_neg hu, if_neg hu]
        by_cases hk : q.stem < key
        · rw [if_pos hk, items_of_past hu hk hlt]
          simp [Page.cut]
        · simp only [if_neg hk]
          exact ih hasc room seen

theorem mem_items_row {key : String} {a : α} {keyed : List (String × List α)} :
    .row key a ∈ items stem delimiter keyed ↔
      Under stem key ∧ rolledUp? stem delimiter key = none ∧ ∃ rows, (key, rows) ∈ keyed ∧ a ∈ rows := by
  induction keyed with
  | nil => simp [items]
  | cons e rest ih =>
      obtain ⟨k, rows⟩ := e
      have htail : (∃ rows', (key, rows') ∈ (k, rows) :: rest ∧ a ∈ rows') ↔
          (key = k ∧ a ∈ rows) ∨ ∃ rows', (key, rows') ∈ rest ∧ a ∈ rows' := by
        constructor
        · rintro ⟨rows', hmem, ha⟩
          rcases List.mem_cons.mp hmem with heq | hmem
          · cases heq; exact .inl ⟨rfl, ha⟩
          · exact .inr ⟨rows', hmem, ha⟩
        · rintro (⟨rfl, ha⟩ | ⟨rows', hmem, ha⟩)
          · exact ⟨rows, List.mem_cons_self, ha⟩
          · exact ⟨rows', List.mem_cons_of_mem _ hmem, ha⟩
      rw [items, htail]
      by_cases hu : Under stem k
      · rw [if_pos hu]
        cases hr : rolledUp? stem delimiter k with
        | none =>
            simp only [List.mem_append, List.mem_map, Item.row.injEq, ih]
            constructor
            · rintro (⟨_, ha, rfl, rfl⟩ | ⟨hu', hr', h⟩)
              · exact ⟨hu, hr, .inl ⟨rfl, ha⟩⟩
              · exact ⟨hu', hr', .inr h⟩
            · rintro ⟨hu', hr', ⟨rfl, ha⟩ | h⟩
              · exact .inl ⟨a, ha, rfl, rfl⟩
              · exact .inr ⟨hu', hr', h⟩
        | some cp =>
            simp only [List.mem_cons, reduceCtorEq, false_or, List.mem_filter, Item.commonPrefix?, ne_eq,
              not_false_eq_true, decide_true, and_true, ih]
            refine and_congr_right (fun _ => and_congr_right (fun hr' => ?_))
            exact ⟨.inr, fun h => h.resolve_left (fun h => by rw [h.1, hr] at hr'; cases hr')⟩
      · rw [if_neg hu, ih]
        refine and_congr_right (fun hu' => and_congr_right (fun _ => ?_))
        exact ⟨.inr, fun h => h.resolve_left (fun h => hu (h.1 ▸ hu'))⟩

theorem mem_items_commonPrefix {cp : String} {keyed : List (String × List α)} :
    .commonPrefix cp ∈ items stem delimiter keyed ↔ ∃ e ∈ keyed, rolledUp? stem delimiter e.1 = some cp := by
  induction keyed with
  | nil => simp [items]
  | cons e rest ih =>
      obtain ⟨k, rows⟩ := e
      simp only [items, List.mem_cons, or_and_right, exists_or, exists_eq_left]
      by_cases hu : Under stem k
      · rw [if_pos hu]
        cases hr : rolledUp? stem delimiter k with
        | none => simp [ih]
        | some cp' =>
            simp only [List.mem_cons, Item.commonPrefix.injEq, List.mem_filter, Item.commonPrefix?, ne_eq,
              Option.some_inj, decide_not, Bool.not_eq_true', decide_eq_false_iff_not, ih]
            by_cases h : cp = cp'
            · simp [h]
            · simp [h, Ne.symm h]
      · rw [if_neg hu, ih]
        exact ⟨.inr, fun h => h.resolve_left (fun h => hu (under_of_rolledUp? h))⟩

theorem mark_of_mem {i : Item α} {keyed : List (String × List α)} (h : i ∈ items stem delimiter keyed) :
    ∃ e ∈ keyed, i.mark = markOf stem delimiter e.1 := by
  cases i with
  | row key a =>
      obtain ⟨_, hr, rows, hmem, _⟩ := mem_items_row.mp h
      exact ⟨_, hmem, (markOf_of_not_rolledUp hr).symm⟩
  | commonPrefix cp =>
      obtain ⟨e, hmem, hr⟩ := mem_items_commonPrefix.mp h
      exact ⟨e, hmem, (markOf_of_rolledUp? hr).symm⟩

/-- Whether `i` may stand before `j`: at a smaller mark, or as rows of one key that `R` allows. -/
def Item.Precedes (R : String → α → α → Prop) (i j : Item α) : Prop :=
  i.mark < j.mark ∨ ∃ key a b, R key a b ∧ i = .row key a ∧ j = .row key b

theorem items_pairwise {R : String → α → α → Prop} {keyed : List (String × List α)}
    (asc : keyed.Pairwise (fun a b => a.1 < b.1)) (hrows : ∀ e ∈ keyed, e.2.Pairwise (R e.1)) :
    (items stem delimiter keyed).Pairwise (Item.Precedes R) := by
  induction keyed with
  | nil => exact List.Pairwise.nil
  | cons e rest ih =>
      obtain ⟨key, rows⟩ := e
      obtain ⟨hlt, hasc⟩ := List.pairwise_cons.mp asc
      have hle : ∀ j ∈ items stem delimiter rest, ∃ k, key < k ∧
          markOf stem delimiter key ≤ markOf stem delimiter k ∧ j.mark = markOf stem delimiter k := by
        intro j hj
        obtain ⟨e, he, hmark⟩ := mark_of_mem hj
        exact ⟨e.1, hlt e he, markOf_mono (hlt e he).le, hmark⟩
      have hrest := ih hasc (fun e he => hrows e (List.mem_cons_of_mem _ he))
      rw [items]
      by_cases hu : Under stem key
      · rw [if_pos hu]
        cases hr : rolledUp? stem delimiter key with
        | none =>
            refine List.pairwise_append.mpr ⟨?_, hrest, ?_⟩
            · exact List.pairwise_map.mpr ((hrows _ List.mem_cons_self).imp
                (fun {a b} hab => .inr ⟨key, a, b, hab, rfl, rfl⟩))
            · rintro i hi j hj
              obtain ⟨a, _, rfl⟩ := List.mem_map.mp hi
              obtain ⟨k, hk, hmono, hmark⟩ := hle j hj
              refine .inl (lt_of_le_of_ne ?_ ?_)
              · rw [hmark, Item.mark, ← markOf_of_not_rolledUp hr]
                exact hmono
              · intro heq
                rw [hmark, Item.mark, ← markOf_of_not_rolledUp hr] at heq
                obtain ⟨cp, hcp, _⟩ := rolledUp?_of_markOf_eq hk.ne heq
                rw [hr] at hcp
                cases hcp
        | some cp =>
            refine List.pairwise_cons.mpr ⟨?_, hrest.filter _⟩
            intro j hj
            obtain ⟨hj, hne⟩ := List.mem_filter.mp hj
            obtain ⟨k, hk, hmono, hmark⟩ := hle j hj
            rw [markOf_of_rolledUp? hr] at hmono
            refine .inl (lt_of_le_of_ne (hmark ▸ hmono) ?_)
            intro heq
            cases j with
            | commonPrefix cp' => simp_all [Item.mark, Item.commonPrefix?]
            | row k' a =>
                obtain ⟨_, hr', _⟩ := mem_items_row.mp hj
                have hk' : cp = k' := heq
                rw [← hk', rolledUp?_self hr] at hr'
                cases hr'
      · rw [if_neg hu]
        exact hrest

theorem Page.length_items (p : Page α) : p.items.length = p.rows.length + p.commonPrefixes.length := by
  rw [Page.rows, Page.commonPrefixes]
  induction p.items with
  | nil => rfl
  | cons i l ih =>
      cases i with
      | row key a =>
          simp only [List.filterMap_cons, Item.value?, Item.commonPrefix?, List.length_cons]
          omega
      | commonPrefix cp =>
          simp only [List.filterMap_cons, Item.value?, Item.commonPrefix?, List.length_cons]
          omega

theorem Page.cut_final {cap : Nat} {items : List (Item α)} (h : (Page.cut cap items).truncated = false) :
    (Page.cut cap items).items = items := by
  have hle : items.length ≤ cap := not_lt.mp (of_decide_eq_false h)
  exact List.take_of_length_le hle

theorem Page.cut_truncated {cap : Nat} {items : List (Item α)} (hcap : 1 ≤ cap)
    (h : (Page.cut cap items).truncated = true) : ∃ front x back, items = front ++ x :: back ∧
      (Page.cut cap items).items = front ++ [x] ∧ (Page.cut cap items).nextMarker = some x.mark ∧
      front.length + 1 = cap := by
  have hlt : cap < items.length := of_decide_eq_true h
  obtain ⟨x, hx⟩ : ∃ x, items[cap - 1]? = some x := ⟨_, List.getElem?_eq_getElem (by omega)⟩
  have htake : items.take cap = items.take (cap - 1) ++ [x] := by
    conv_lhs => rw [← Nat.sub_add_cancel hcap, List.take_add_one, hx]
    rfl
  refine ⟨items.take (cap - 1), x, items.drop cap, ?_, htake, ?_, ?_⟩
  · conv_lhs => rw [← List.take_append_drop cap items, htake]
    simp
  · rw [Page.nextMarker, h, if_pos rfl]
    simp [Page.cut, htake]
  · rw [List.length_take]
    omega

theorem Page.length_cut_le (cap : Nat) (items : List (Item α)) :
    (Page.cut cap items).items.length ≤ cap := List.length_take_le cap items

theorem Page.cut_turn {cap : Nat} {items : List (Item α)} (hcap : 1 ≤ cap)
    (asc : items.Pairwise (fun i j => i.mark < j.mark)) (h : (Page.cut cap items).truncated = true) :
    ∃ marker, (Page.cut cap items).nextMarker = some marker ∧
      (∃ i ∈ (Page.cut cap items).items, i.mark = marker) ∧
      (∀ i ∈ (Page.cut cap items).items, i.mark ≤ marker) ∧
      items = (Page.cut cap items).items ++ items.filter (fun i => marker < i.mark) := by
  obtain ⟨front, x, back, hitems, hpage, hmarker, _⟩ := Page.cut_truncated hcap h
  have hsplit := hitems ▸ asc
  obtain ⟨_, hback, hcross⟩ := List.pairwise_append.mp hsplit
  have hfront : ∀ i ∈ front ++ [x], i.mark ≤ x.mark := by
    intro i hi
    rcases List.mem_append.mp hi with hi | hi
    · exact (hcross i hi x List.mem_cons_self).le
    · rw [List.mem_singleton.mp hi]
  have hleft : items.filter (fun i => x.mark < i.mark) = back := by
    rw [hitems, List.append_cons, List.filter_append]
    have hnone : (front ++ [x]).filter (fun i => x.mark < i.mark) = [] := by
      rw [List.filter_eq_nil_iff]
      intro i hi
      rw [decide_eq_true_eq]
      exact not_lt_of_ge (hfront i hi)
    have hall : back.filter (fun i => x.mark < i.mark) = back := by
      rw [List.filter_eq_self]
      intro i hi
      rw [decide_eq_true_eq]
      exact (List.pairwise_cons.mp hback).1 i hi
    rw [hnone, hall, List.nil_append]
  refine ⟨x.mark, hmarker, ⟨x, ?_, rfl⟩, ?_, ?_⟩
  · rw [hpage]
    exact List.mem_append_right _ List.mem_cons_self
  · rw [hpage]
    exact hfront
  · rw [hpage, hleft, hitems, List.append_assoc, List.singleton_append]

def Item.covers (stem delimiter key : String) : Item α → Bool
  | .row k _ => k = key
  | .commonPrefix cp => rolledUp? stem delimiter key = some cp

theorem mark_of_covers {key : String} {i : Item α} {keyed : List (String × List α)}
    (h : i ∈ items stem delimiter keyed) (hc : i.covers stem delimiter key = true) :
    i.mark = markOf stem delimiter key := by
  cases i with
  | row k a =>
      obtain rfl : k = key := of_decide_eq_true hc
      exact (markOf_of_not_rolledUp (mem_items_row.mp h).2.1).symm
  | commonPrefix cp => exact (markOf_of_rolledUp? (of_decide_eq_true hc)).symm

theorem exists_covers {key : String} {rows : List α} {keyed : List (String × List α)}
    (hu : Under stem key) (hm : (key, rows) ∈ keyed) (hne : rows ≠ []) :
    ∃ i ∈ items stem delimiter keyed, i.covers stem delimiter key = true := by
  cases hr : rolledUp? stem delimiter key with
  | none =>
      obtain ⟨a, ha⟩ := List.exists_mem_of_ne_nil rows hne
      exact ⟨.row key a, mem_items_row.mpr ⟨hu, hr, rows, hm, ha⟩, decide_eq_true rfl⟩
  | some cp =>
      exact ⟨.commonPrefix cp, mem_items_commonPrefix.mpr ⟨_, hm, hr⟩, decide_eq_true hr⟩

theorem value?_items (keyed : List (String × List α)) :
    (items stem delimiter keyed).filterMap Item.value? =
      (keyed.filter (fun e => Under stem e.1 ∧ rolledUp? stem delimiter e.1 = none)).flatMap Prod.snd := by
  induction keyed with
  | nil => rfl
  | cons e rest ih =>
      obtain ⟨key, rows⟩ := e
      rw [items, List.filter_cons]
      by_cases hu : Under stem key
      · cases hr : rolledUp? stem delimiter key with
        | none =>
            have hrows : (rows.map (Item.row key)).filterMap Item.value? = rows := by
              rw [List.filterMap_map]
              exact List.filterMap_some
            simp [hu, hrows, ih]
        | some cp =>
            have hkeep : ((items stem delimiter rest).filter (fun i => i.commonPrefix? ≠ some cp)).filterMap
                Item.value? = (items stem delimiter rest).filterMap Item.value? := by
              rw [List.filterMap_filter]
              congr 1
              funext i
              cases i with
              | row k a => rfl
              | commonPrefix cp' => simp [Item.value?]
            simp only [hu, if_true, List.filterMap_cons, Item.value?, hkeep, ih, reduceCtorEq, and_false,
              decide_false, Bool.false_eq_true, if_false]
      · simp [hu, ih]

/-- The rows and the common prefixes among some items, each of them in the order of the items. -/
inductive Splits : List (Item α) → List α → List String → Prop
  | nil : Splits [] [] []
  | row (key : String) (a : α) {l : List (Item α)} {rows : List α} {prefixes : List String}
      (h : Splits l rows prefixes) : Splits (.row key a :: l) (a :: rows) prefixes
  | commonPrefix (cp : String) {l : List (Item α)} {rows : List α} {prefixes : List String}
      (h : Splits l rows prefixes) : Splits (.commonPrefix cp :: l) rows (cp :: prefixes)

theorem splits_filterMap (l : List (Item α)) :
    Splits l (l.filterMap Item.value?) (l.filterMap Item.commonPrefix?) := by
  induction l with
  | nil => exact .nil
  | cons i l ih =>
      cases i with
      | row key a => exact .row key a ih
      | commonPrefix cp => exact .commonPrefix cp ih

theorem Splits.eq_filterMap {l : List (Item α)} {rows : List α} {prefixes : List String}
    (h : Splits l rows prefixes) : rows = l.filterMap Item.value? ∧ prefixes = l.filterMap Item.commonPrefix? := by
  induction h with
  | nil => exact ⟨rfl, rfl⟩
  | row key a _ ih => exact ⟨congrArg (a :: ·) ih.1, ih.2⟩
  | commonPrefix cp _ ih => exact ⟨ih.1, congrArg (cp :: ·) ih.2⟩

theorem Page.splits_iff {p : Page α} {rows : List α} {prefixes : List String} :
    Splits p.items rows prefixes ↔ rows = p.rows ∧ prefixes = p.commonPrefixes := by
  constructor
  · exact fun h => h.eq_filterMap
  · rintro ⟨rfl, rfl⟩
    exact splits_filterMap p.items

theorem mem_value?_iff {l : List (Item α)} {a : α} : a ∈ l.filterMap Item.value? ↔ ∃ key, .row key a ∈ l := by
  rw [List.mem_filterMap]
  constructor
  · rintro ⟨i, hi, ha⟩
    cases i with
    | row key a' => cases ha; exact ⟨key, hi⟩
    | commonPrefix cp => cases ha
  · exact fun ⟨key, hi⟩ => ⟨.row key a, hi, rfl⟩

theorem mem_commonPrefix?_iff {l : List (Item α)} {cp : String} :
    cp ∈ l.filterMap Item.commonPrefix? ↔ .commonPrefix cp ∈ l := by
  rw [List.mem_filterMap]
  constructor
  · rintro ⟨i, hi, hcp⟩
    cases i with
    | row key a => cases hcp
    | commonPrefix cp' => cases hcp; exact hi
  · exact fun hi => ⟨.commonPrefix cp, hi, rfl⟩

theorem commonPrefix?_ascending {R : String → α → α → Prop} {l : List (Item α)}
    (h : l.Pairwise (Item.Precedes R)) : (l.filterMap Item.commonPrefix?).Pairwise (· < ·) := by
  rw [List.pairwise_filterMap]
  apply h.imp
  intro i j hij cp hcp cp' hcp'
  cases i with
  | row key a => cases hcp
  | commonPrefix stem =>
      cases j with
      | row key a => cases hcp'
      | commonPrefix stem' =>
          cases hcp
          cases hcp'
          rcases hij with hlt | ⟨_, _, _, _, heq, _⟩
          · exact hlt
          · cases heq

theorem Item.Precedes.asymm {R : String → α → α → Prop} (hR : ∀ key a b, R key a b → ¬ R key b a)
    (i j : Item α) (h : Item.Precedes R i j) : ¬ Item.Precedes R j i := by
  intro h'
  rcases h with hlt | ⟨key, a, b, hab, rfl, rfl⟩
  · rcases h' with hlt' | ⟨key, a, b, _, rfl, rfl⟩
    · exact lt_asymm hlt hlt'
    · exact lt_irrefl _ hlt
  · rcases h' with hlt' | ⟨key', a', b', hab', heq, heq'⟩
    · exact lt_irrefl _ hlt'
    · cases heq
      cases heq'
      exact hR key a b hab hab'

end BucketStore.Listing
