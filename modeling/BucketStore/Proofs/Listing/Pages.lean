import BucketStore.Listing.Versions
import BucketStore.Proofs.Listing.Items

namespace BucketStore.Listing

variable {α : Type}

def Query.beyond (q : Query) (i : Item α) : Bool := q.marker = "" ∨ q.marker < i.mark

/-- Whether a resumed listing of versions may still report an item: past the marker, or in the
history of the marker key when it resumes inside. -/
def VersionQuery.reaches (q : VersionQuery) (i : Item VersionRow) : Bool :=
  q.beyond i ∨ q.inside ∧ i.mark = q.marker ∧ i.value?.isSome

theorem empty_lt {s : String} (h : s ≠ "") : "" < s := by
  rw [String.lt_iff_toList_lt]
  cases hs : s.toList with
  | nil => exact absurd (String.toList_inj.mp hs) h
  | cons c cs => exact List.nil_lt_cons c cs

theorem page_eq_cut (q : Query) {keyed : List (String × List α)}
    (asc : keyed.Pairwise (fun a b => a.1 < b.1)) (starts : String → Prop) [DecidablePred starts]
    (keep : Item α → Bool)
    (hrow : ∀ key a, Under q.stem key → (keep (.row key a) = true ↔ starts key))
    (hcp : ∀ key cp, rolledUp? q.stem q.delimiter key = some cp →
      (keep (.commonPrefix cp) = true ↔ q.marker < cp))
    (hstart : ∀ key cp, rolledUp? q.stem q.delimiter key = some cp → q.marker < cp → starts key) :
    page q (keyed.filter (fun e => starts e.1)) =
      Page.cut q.cap ((items q.stem q.delimiter keyed).filter keep) := by
  rw [page, walk_eq_cut q (asc.filter _)]
  congr 1
  clear asc
  induction keyed with
  | nil => rfl
  | cons e rest ih =>
      obtain ⟨key, rows⟩ := e
      by_cases hs : starts key
      · rw [List.filter_cons_of_pos (by simpa using hs), items, items]
        by_cases hu : Under q.stem key
        · rw [if_pos hu, if_pos hu]
          cases hr : rolledUp? q.stem q.delimiter key with
          | none =>
              have hunseen : (rows.map (Item.row key)).filter (unseen q.marker []) = rows.map (.row key) := by
                rw [List.filter_eq_self]
                simp [unseen, Item.commonPrefix?]
              have hkeep : (rows.map (Item.row key)).filter keep = rows.map (.row key) := by
                rw [List.filter_eq_self]
                intro i hi
                obtain ⟨a, _, rfl⟩ := List.mem_map.mp hi
                exact (hrow key a hu).mpr hs
              simp only [List.filter_append, hunseen, hkeep, ih]
          | some cp =>
              have hiff : unseen q.marker [] (.commonPrefix cp : Item α) = keep (.commonPrefix cp) := by
                rw [Bool.eq_iff_iff, hcp key cp hr]
                simp only [unseen, Item.commonPrefix?, Option.all_some, List.not_mem_nil,
                  not_false_eq_true, and_true, decide_eq_true_eq]
              simp only [List.filter_cons, hiff]
              rw [List.filter_comm, ih, List.filter_comm]
        · rw [if_neg hu, if_neg hu, ih]
      · rw [List.filter_cons_of_neg (by simpa using hs), ih, items]
        by_cases hu : Under q.stem key
        · rw [if_pos hu]
          cases hr : rolledUp? q.stem q.delimiter key with
          | none =>
              have hkeep : (rows.map (Item.row key)).filter keep = [] := by
                rw [List.filter_eq_nil_iff]
                intro i hi
                obtain ⟨a, _, rfl⟩ := List.mem_map.mp hi
                exact fun hk => hs ((hrow key a hu).mp hk)
              simp only [List.filter_append, hkeep, List.nil_append]
          | some cp =>
              have hkeep : ¬ keep (.commonPrefix cp) = true := fun hk =>
                hs (hstart key cp hr ((hcp key cp hr).mp hk))
              have hne : ∀ i : Item α, keep i = true → i.commonPrefix? ≠ some cp := by
                intro i hi heq
                cases i with
                | row k a => cases heq
                | commonPrefix cp' => cases heq; exact hkeep hi
              simp only [List.filter_cons_of_neg hkeep, List.filter_filter]
              apply List.filter_congr
              intro i _
              cases hi : keep i with
              | false => rfl
              | true => simpa using hne i hi
        · rw [if_neg hu]

theorem Query.beyond_iff {q : Query} {i : Item α} (h : i.mark ≠ "") :
    q.beyond i = true ↔ q.marker < i.mark := by
  rw [Query.beyond, decide_eq_true_eq]
  exact ⟨fun h' => h'.elim (fun hm => hm ▸ empty_lt h) id, .inr⟩

theorem Query.starts_iff {q : Query} {key : String} (hu : Under q.stem key) :
    q.starts key ↔ q.marker = "" ∨ q.marker < key := by
  rw [Query.starts]
  split
  · rename_i h
    exact ⟨.inr, fun h' => h'.resolve_left h.1⟩
  · rename_i h
    refine ⟨fun _ => ?_, fun _ => hu.le⟩
    by_cases hm : q.marker = ""
    · exact .inl hm
    · exact .inr ((not_le.mp (fun hle => h ⟨hm, hle⟩)).trans_le hu.le)

theorem page_eq_cut_beyond (q : Query) {keyed : List (String × List α)}
    (asc : keyed.Pairwise (fun a b => a.1 < b.1)) :
    page q (keyed.filter (fun e => q.starts e.1)) =
      Page.cut q.cap ((items q.stem q.delimiter keyed).filter q.beyond) := by
  apply page_eq_cut q asc q.starts
  · intro key a hu
    rw [Query.starts_iff hu, Query.beyond, decide_eq_true_eq, Item.mark]
  · intro key cp hr
    exact Query.beyond_iff (rolledUp?_ne_empty hr)
  · intro key cp hr hlt
    exact (Query.starts_iff (under_of_rolledUp? hr)).mpr (.inr (hlt.trans_le (rolledUp?_le hr)))

theorem currentPage_eq_cut (q : Query) {current : List (String × Object)}
    (asc : current.Pairwise (fun a b => a.1 < b.1)) :
    currentPage q current = Page.cut q.cap
      ((items q.stem q.delimiter (current.map (fun e => (e.1, [e.2.toHead])))).filter q.beyond) := by
  rw [currentPage, ← page_eq_cut_beyond q (List.pairwise_map.mpr asc), List.filter_map]
  rfl

theorem VersionQuery.starts_iff {q : VersionQuery} {key : String} (hu : Under q.stem key) :
    q.starts key ↔ (q.marker = "" ∨ q.marker < key) ∨ q.inside ∧ key = q.marker := by
  rw [VersionQuery.starts]
  split
  · rename_i h
    constructor
    · intro hle
      rcases hle.lt_or_eq with hlt | heq
      · exact .inl (.inr hlt)
      · exact .inr ⟨h, heq.symm⟩
    · rintro ((hm | hlt) | ⟨_, rfl⟩)
      · exact absurd hm h.1
      · exact hlt.le
      · exact le_rfl
  · rename_i h
    rw [Query.starts_iff hu]
    exact ⟨.inl, fun h' => h'.resolve_right (fun h' => h h'.1)⟩

theorem versionsPage_eq_cut (q : VersionQuery) (histories : Table String History) :
    (versionsPage q histories).toPage = Page.cut q.cap
      ((items q.stem q.delimiter
        (histories.entries.map (fun e => (e.1, q.rowsOf e.1 e.2)))).filter q.reaches) := by
  have asc : (histories.entries.map (fun e => (e.1, q.rowsOf e.1 e.2))).Pairwise
      (fun a b => a.1 < b.1) := List.pairwise_map.mpr histories.ascending
  rw [← page_eq_cut q.toQuery asc q.starts, List.filter_map]
  · rfl
  · intro key a hu
    rw [VersionQuery.starts_iff hu, VersionQuery.reaches, decide_eq_true_eq, Query.beyond,
      decide_eq_true_eq, Item.mark, Item.value?, Option.isSome_some, eq_self, and_true]
  · intro key cp hr
    simp only [VersionQuery.reaches, Item.value?, Option.isSome_none, Bool.false_eq_true, and_false,
      or_false, decide_eq_true_eq]
    exact Query.beyond_iff (rolledUp?_ne_empty hr)
  · intro key cp hr hlt
    exact (VersionQuery.starts_iff (under_of_rolledUp? hr)).mpr
      (.inl (.inr (hlt.trans_le (rolledUp?_le hr))))

end BucketStore.Listing
