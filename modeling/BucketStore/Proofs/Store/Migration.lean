import BucketStore.Proofs.Store.Agreement
import BucketStore.Proofs.Store.Unversioned

namespace BucketStore

def Head.asNull (h : Head) : Head := { h with versionId := some VersionId.null }

def Object.asNull (o : Object) : Object := { o with versionId := some VersionId.null }

def Version.asNull : Version → Version
  | object o => .object o.asNull
  | marker m => .marker m

namespace Listing

variable {α β : Type}

def VersionRow.asNull (r : VersionRow) : VersionRow := { r with version := r.version.asNull }

/-- A page that shows what `p` shows, row by row and up to `f`, and goes on at the same place. -/
structure Page.Mirrors (f : α → β) (p : Page α) (p' : Page β) : Prop where
  rows : p'.rows = p.rows.map f
  commonPrefixes : p'.commonPrefixes = p.commonPrefixes
  truncated : p'.truncated = p.truncated
  nextMarker : p'.nextMarker = p.nextMarker

theorem Page.mirrors_map (f : α → β) (p : Page α) : p.Mirrors f (p.map f) where
  rows := by
    simp only [Page.rows, Page.map, List.filterMap_map, List.map_filterMap]
    congr 1
    funext i
    cases i <;> rfl
  commonPrefixes := by
    simp only [Page.commonPrefixes, Page.map, List.filterMap_map]
    congr 1
    funext i
    cases i <;> rfl
  truncated := rfl
  nextMarker := Page.nextMarker_map f p

theorem resumeAfter_null {r : VersionRow} (hr : r.version.idOrNull = VersionId.null) (marker : String) :
    resumeAfter marker [r] = [] := by
  by_cases hmarker : marker = VersionId.null
  · have hfront : ∀ a ∈ ([] : List VersionRow), a.version.idOrNull ≠ r.version.idOrNull := nofun
    rw [hmarker, ← hr]
    exact resumeAfter_split hfront
  · have hgone : ∀ a ∈ [r], a.version.idOrNull ≠ marker := by
      intro a ha heq
      rw [List.mem_singleton.mp ha, hr] at heq
      exact hmarker heq.symm
    rw [resumeAfter_gone hgone, if_neg hmarker]
    simp [hr, VersionId.not_olderThan_of_null]

end Listing

namespace ObjectStore

open Listing

variable {s : PlainStore} {key id : String} {o : Object}

/-- What `t` keeps of the plain store that it comes from: all that is read and listed, but for the IDs of
null versions, and all that later writes of null versions come to. -/
structure Migration (s : PlainStore) (t : ObjectStore) : Prop where
  get? : ∀ key, t.get? key = ((plain s).get? key).map Object.asNull
  getVersion? : ∀ key id, t.getVersion? key id = ((plain s).getVersion? key id).map Object.asNull
  isMarker : ∀ key id, t.isMarker key id = (plain s).isMarker key id
  size : t.size = (plain s).size
  objects : ∀ q, ((plain s).listObjects q).Mirrors Head.asNull (t.listObjects q)
  versions : ∀ q, ((plain s).listVersions q).toPage.Mirrors VersionRow.asNull (t.listVersions q).toPage
  unidentified : ∀ q, (∀ h ∈ ((plain s).listObjects q.toQuery).rows, h.versionId = none) ∧
    ∀ r ∈ ((plain s).listVersions q).rows, r.version.id? = none
  add : ∀ o, o.versionId = none → t.add (.object o.asNull) = ((plain s).add (.object o)).migrate
  dropVersion : ∀ key, t.dropVersion key VersionId.null =
    (((plain s).dropVersion key VersionId.null).1.map Version.asNull,
      ((plain s).dropVersion key VersionId.null).2.migrate)
  migrate : t.migrate = t

theorem history_migrate (s : PlainStore) (key : String) :
    (plain s).migrate.history key = ((s.get? key).map toNullVersion).toList := by
  rw [migrate, history, VersionedStore.history, Table.get?_map]
  cases s.get? key <;> rfl

theorem current_migrate (s : PlainStore) :
    (plain s).migrate.current = s.entries.map (fun e => (e.1, e.2.asNull)) := by
  rw [migrate, current, VersionedStore.current, Table.map, List.filterMap_map, ← List.filterMap_eq_map]
  rfl

theorem find?_migrate (s : PlainStore) (key id : String) :
    VersionedStore.find? (s.map (fun o => [toNullVersion o])) key id =
      if id = VersionId.null then (s.get? key).map toNullVersion else none := by
  have hhistory : VersionedStore.history (s.map (fun o => [toNullVersion o])) key =
      ((s.get? key).map toNullVersion).toList := history_migrate s key
  rw [VersionedStore.find?, History.find?, hhistory]
  cases s.get? key with
  | none => exact (ite_self none).symm
  | some o =>
      split
      · rename_i hid
        subst hid
        rfl
      · rename_i hid
        refine List.find?_eq_none.mpr (fun v hv heq => hid ?_)
        rw [List.mem_singleton.mp hv, decide_eq_true_eq] at heq
        exact (Option.some.inj heq).symm

theorem migrate_sound (hs : ∀ key o, s.get? key = some o → o.versionId = none) : (plain s).migrate.Sound 0 :=
  Sound.migrate (s := plain s) hs

theorem rowsOf_migrate_marker {q : VersionQuery} (hin : q.inside) :
    q.rowsOf q.marker ((plain s).migrate.history q.marker) = [] := by
  rw [VersionQuery.rowsOf, if_pos ⟨hin, rfl⟩, history_migrate]
  cases s.get? q.marker with
  | none => exact List.suffix_nil.mp (resumeAfter_suffix _ _)
  | some o => exact resumeAfter_null rfl _

theorem mem_versionsFrom_migrate {q : VersionQuery} {i : Item VersionRow} :
    i ∈ (plain s).migrate.versionsFrom q ↔ i ∈ (plain s).migrate.versionsFrom { q with versionIdMarker := "" } := by
  have hout : ¬ ({ q with versionIdMarker := "" } : VersionQuery).inside := fun h => h.2 rfl
  cases i with
  | commonPrefix cp => rw [mem_versionsFrom_commonPrefix, mem_versionsFrom_commonPrefix]
  | row key r =>
      rw [mem_versionsFrom_row, mem_versionsFrom_row, rowsOf_outside hout]
      refine and_congr_right (fun _ => and_congr_right (fun _ => ?_))
      by_cases hmarker : q.inside ∧ key = q.marker
      · obtain ⟨hin, rfl⟩ := hmarker
        rw [rowsOf_migrate_marker hin]
        refine iff_of_false (fun h => nomatch h.1) (fun h => ?_)
        rcases h.2 with (hnone | hlt) | ⟨hin', _⟩
        · exact hin.1 hnone
        · exact lt_irrefl _ hlt
        · exact hout hin'
      · rw [VersionQuery.rowsOf, if_neg hmarker]
        simp only [hmarker, hout, false_and, or_false]

theorem versions_migrate_outside {q : VersionQuery} (hout : ¬ q.inside) :
    ((plain s).migrate.listVersions q).toPage = ((plain s).listVersions q).toPage.map VersionRow.asNull := by
  have hstarts : ∀ key, q.starts key ↔ q.toQuery.starts key := fun key => by rw [VersionQuery.starts, if_neg hout]
  simp only [listVersions, PlainStore.listVersions, migrate, versionsPage, Table.map, page, rowsOf_outside hout, hstarts]
  rw [← walk_map]
  congr 1
  simp only [List.filter_map, List.map_map, Function.comp_def]
  rfl

theorem versions_migrate (hs : ∀ key o, s.get? key = some o → o.versionId = none) (q : VersionQuery) :
    ((plain s).migrate.listVersions q).toPage = ((plain s).listVersions q).toPage.map VersionRow.asNull := by
  have hfrom : (plain s).migrate.versionsFrom q = (plain s).migrate.versionsFrom { q with versionIdMarker := "" } :=
    eq_of_mem_iff_of_asymm (migrate_sound hs).precedes_asymm (versionsFrom_pairwise _ _) (versionsFrom_pairwise _ _)
      (fun _ => mem_versionsFrom_migrate)
  calc ((plain s).migrate.listVersions q).toPage
      = ((plain s).migrate.listVersions { q with versionIdMarker := "" }).toPage := by
        rw [listVersions_eq_cut (.inl rfl), listVersions_eq_cut (.inl rfl), hfrom]
    _ = ((plain s).listVersions { q with versionIdMarker := "" }).toPage.map VersionRow.asNull :=
        versions_migrate_outside (fun h => h.2 rfl)

theorem objects_migrate (q : Query) :
    (plain s).migrate.listObjects q = ((plain s).listObjects q).map Head.asNull := by
  rw [listObjects, listObjects, current_migrate, currentPage, currentPage, page, page, ← walk_map]
  congr 1
  simp only [List.filter_map, List.map_map, Function.comp_def]
  rfl

theorem unidentified_plain (hs : ∀ key o, s.get? key = some o → o.versionId = none) (q : VersionQuery) :
    (∀ h ∈ ((plain s).listObjects q.toQuery).rows, h.versionId = none) ∧
      ∀ r ∈ ((plain s).listVersions q).rows, r.version.id? = none := by
  constructor
  · intro h hh
    obtain ⟨key, o, ho, rfl⟩ := of_mem_listObjects hh
    exact hs key o ho
  · intro r hr
    obtain ⟨key, hmem⟩ := of_mem_listVersions hr
    obtain ⟨o, ho, heq⟩ := Option.map_eq_some_iff.mp (Option.mem_toList.mp hmem)
    rw [← heq]
    exact hs key o ho

theorem getVersion?_migrate (s : PlainStore) (key id : String) :
    (plain s).migrate.getVersion? key id = ((plain s).getVersion? key id).map Object.asNull := by
  rw [migrate, getVersion?, getVersion?, find?_migrate]
  split
  · cases s.get? key <;> rfl
  · rfl

theorem isMarker_migrate (s : PlainStore) (key id : String) : (plain s).migrate.isMarker key id = false := by
  rw [migrate, isMarker, find?_migrate]
  split
  · cases s.get? key <;> rfl
  · rfl

theorem add_migrate (s : PlainStore) (o : Object) :
    (plain s).migrate.add (.object o.asNull) = ((plain s).add (.object o)).migrate := by
  have halone : (VersionedStore.history (s.map (fun o => [toNullVersion o])) o.key).add (toNullVersion o) =
      [toNullVersion o] := by
    rw [VersionedStore.history, Table.get?_map]
    cases s.get? o.key <;> rfl
  refine congrArg versioned ?_
  rw [Table.map_insert, ← halone]
  rfl

theorem dropVersion_null_migrate (s : PlainStore) (key : String) :
    (plain s).migrate.dropVersion key VersionId.null =
      (((plain s).dropVersion key VersionId.null).1.map Version.asNull,
        ((plain s).dropVersion key VersionId.null).2.migrate) := by
  simp only [dropVersion, migrate, VersionedStore.dropVersion, find?_migrate, if_pos]
  cases hget : s.get? key with
  | none => rw [Table.erase_eq_self hget]; rfl
  | some o =>
      have hlast : (VersionedStore.history (s.map (fun o => [toNullVersion o])) key).remove VersionId.null = [] := by
        rw [VersionedStore.history, Table.get?_map, hget]
        rfl
      simp only [Option.map_some, hlast, Table.map_erase]
      rfl

/-- Versioning turned on for the first time changes nothing that a client can tell, beyond naming the
null version, and writes come to the same before and after it. -/
theorem migration_preserves (hs : ∀ key o, s.get? key = some o → o.versionId = none) :
    Migration s (plain s).migrate where
  get? key := by
    rw [get?, get?_eq_newest, history_migrate]
    cases s.get? key <;> rfl
  getVersion? := getVersion?_migrate s
  isMarker := isMarker_migrate s
  size := by
    rw [size, current_migrate, List.length_map]
    rfl
  objects q := by
    rw [objects_migrate]
    exact Page.mirrors_map _ _
  versions q := by
    rw [versions_migrate hs]
    exact Page.mirrors_map _ _
  unidentified := unidentified_plain hs
  add o _ := add_migrate s o
  dropVersion := dropVersion_null_migrate s
  migrate := rfl

def unmigrated : PlainStore :=
  Table.ofList (["a/1", "a/2", "b"].map (fun key => (key, Object.ofBody key none [1] {})))

theorem unmigrated_preserved :
    (∀ key o, unmigrated.get? key = some o → o.versionId = none) ∧
      Migration unmigrated (plain unmigrated).migrate ∧
      ((plain unmigrated).migrate.listVersions ⟨⟨"", "/", "a/1", 5⟩, "gone"⟩).items.map Item.mark = ["b"] := by
  have hbare : ∀ key o, unmigrated.get? key = some o → o.versionId = none := by
    intro key o hget
    have hentries : ∀ e ∈ unmigrated.entries, e.2.versionId = none := by decide
    exact hentries (key, o) (Table.mem_entries.mpr hget)
  exact ⟨hbare, migration_preserves hbare, by decide⟩

end ObjectStore

end BucketStore
