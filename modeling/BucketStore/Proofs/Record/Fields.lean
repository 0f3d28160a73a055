import BucketStore.Proofs.Instant
import BucketStore.Proofs.Json.RoundTrip
import BucketStore.Proofs.Table
import BucketStore.Record

namespace BucketStore.Record

variable {α β γ : Type} {members : List (Option String × Json)} {name : String} {v : Option Json}

theorem valueOf?_cons_of_ne {m : Option String × Json} (h : m.1 ≠ some name) :
    valueOf? (m :: members) name = valueOf? members name := by
  rw [valueOf?, List.filter_cons_of_neg (by simpa using h), ← valueOf?]

theorem valueOf?_optional_append_of_ne {other : String} (h : other ≠ name) :
    valueOf? (optional other v ++ members) name = valueOf? members name := by
  cases v with
  | none => rfl
  | some v => exact valueOf?_cons_of_ne (fun hname => h (Option.some.inj hname))

theorem valueOf?_optional_append (h : ∀ m ∈ members, m.1 ≠ some name) :
    valueOf? (optional name v ++ members) name = some v := by
  have hfilter : members.filter (fun m => m.1 = some name) = [] := by simpa [List.filter_eq_nil_iff] using h
  cases v with
  | none => rw [valueOf?, optional, List.nil_append, hfilter]
  | some v => rw [valueOf?, optional, member, List.singleton_append, List.filter_cons_of_pos (by simp), hfilter]

/-- The members that fields are written as, each unless it is absent. -/
def present (fs : List (String × Option Json)) : List (Option String × Json) :=
  fs.flatMap (fun f => optional f.1 f.2)

theorem named_of_mem_present {fs : List (String × Option Json)} {m : Option String × Json} (h : m ∈ present fs) :
    ∃ f ∈ fs, m.1 = some f.1 := by
  obtain ⟨f, hf, hm⟩ := List.mem_flatMap.mp h
  refine ⟨f, hf, ?_⟩
  obtain ⟨name, _ | v⟩ := f
  · cases hm
  · rw [List.mem_singleton.mp hm]

theorem valueOf?_present {fs : List (String × Option Json)} (h : (fs.map Prod.fst).Nodup) :
    ∀ f ∈ fs, valueOf? (present fs) f.1 = some f.2 := by
  induction fs with
  | nil => exact fun _ hf => absurd hf List.not_mem_nil
  | cons g fs ih =>
      obtain ⟨hg, hfs⟩ := List.nodup_cons.mp h
      have hne : ∀ f ∈ fs, g.1 ≠ f.1 := fun f hf heq => hg (heq ▸ List.mem_map_of_mem hf)
      intro f hf
      rw [present, List.flatMap_cons, ← present]
      rcases List.mem_cons.mp hf with rfl | hf
      · refine valueOf?_optional_append (fun m hm hname => ?_)
        obtain ⟨e, he, hename⟩ := named_of_mem_present hm
        exact hne e he (Option.some.inj (hname.symm.trans hename))
      · rw [valueOf?_optional_append_of_ne (hne f hf)]
        exact ih hfs f hf

theorem mapM_map_eq_some {read : β → Option γ} {written : α → β} {a : α → γ} {l : List α}
    (h : ∀ x ∈ l, read (written x) = some (a x)) : (l.map written).mapM read = some (l.map a) := by
  induction l with
  | nil => rfl
  | cons x l ih =>
      rw [List.map_cons, List.mapM_cons, h x List.mem_cons_self, ih (fun y hy => h y (List.mem_cons_of_mem _ hy))]
      rfl

theorem fields?_present {names : List String} {values : List (Option Json)} (h : names.Nodup)
    (hlength : names.length = values.length) (spare : Nat) :
    fields? names spare (.object (present (names.zip values))) = some values := by
  have hnames : (names.zip values).map Prod.fst = names := List.map_fst_zip hlength.le
  have hvalues : (names.zip values).map Prod.snd = values := List.map_snd_zip hlength.ge
  have hnamed : (present (names.zip values)).all (fun m => m.1.isSome) = true := by
    refine List.all_eq_true.mpr (fun m hm => ?_)
    obtain ⟨f, _, hf⟩ := named_of_mem_present hm
    rw [hf, Option.isSome_some]
  have hfound := mapM_map_eq_some (valueOf?_present (hnames.symm ▸ h))
  rw [hnames, hvalues] at hfound
  rw [fields?, if_pos hnamed, hfound]

theorem optional?_map {read : Option Json → Option α} {written : α → Json} {x : Option α}
    (h : ∀ a ∈ x, read (some (written a)) = some a ∧ written a ≠ .null) : optional? read (x.map written) = some x := by
  cases x with
  | none => rfl
  | some a =>
      obtain ⟨hread, hnull⟩ := h a rfl
      rw [Option.map_some, optional?, hread, Option.map_some]
      · exact fun hc => nomatch hc
      · exact fun hc => hnull (Option.some.inj hc)

theorem optional?_string (x : Option String) : optional? string? (x.map string) = some x :=
  optional?_map (fun _ _ => ⟨rfl, fun h => nomatch h⟩)

theorem naturalBelow?_natural {bound n : Nat} (h : n < bound) : naturalBelow? bound (some (.natural n)) = some n :=
  if_pos h

theorem naturalBelow?_lt {bound n : Nat} (h : naturalBelow? bound v = some n) : n < bound := by
  unfold naturalBelow? at h
  split at h
  · obtain ⟨hn, hbound⟩ := Option.ite_none_right_eq_some.mp h
    exact Option.some.inj hbound ▸ hn
  · cases h

theorem optional?_eq_some {read : Option Json → Option α} {x : Option α} (h : optional? read v = some x) :
    ∀ a ∈ x, read v = some a := by
  rintro a rfl
  unfold optional? at h
  split at h
  · cases h
  · cases h
  · obtain ⟨b, hb, hab⟩ := Option.map_eq_some_iff.mp h
    exact Option.some.inj hab ▸ hb

theorem stringMap?_perm {t : Table String String} {l : List (String × String)} (h : l.Perm t.entries) :
    stringMap? (some (.object (l.map (fun e => (some e.1, string e.2))))) = some t := by
  have hentries : (l.map (fun e => (some e.1, string e.2))).mapM binding? = some (l.map id) :=
    mapM_map_eq_some (fun _ _ => rfl)
  rw [stringMap?, hentries, List.map_id, Option.map_some, Table.ofList_perm h]

theorem instant?_instant {i : Instant} (h : 0 ≤ i.date.year ∧ i.date.year ≤ 9999) :
    instant? (some (instant i)) = some i := by
  rw [instant?, instant, string, string?, Option.bind_some, Instant.read?_write h]

theorem valueOf?_null {front back : List (Option String × Json)} (h : ∀ m ∈ front ++ back, m.1 ≠ some name) :
    valueOf? (front ++ (some name, .null) :: back) name = some (some .null) ∧
      valueOf? (front ++ back) name = some none ∧
      ∀ other ≠ name, valueOf? (front ++ (some name, .null) :: back) other = valueOf? (front ++ back) other := by
  have hfront : front.filter (fun m => m.1 = some name) = [] :=
    List.filter_eq_nil_iff.mpr (fun m hm => by simpa using h m (List.mem_append_left _ hm))
  have hback : back.filter (fun m => m.1 = some name) = [] :=
    List.filter_eq_nil_iff.mpr (fun m hm => by simpa using h m (List.mem_append_right _ hm))
  refine ⟨?_, ?_, fun other hother => ?_⟩
  · rw [valueOf?, List.filter_append, hfront, List.filter_cons_of_pos (by simp), hback]
    rfl
  · rw [valueOf?, List.filter_append, hfront, hback]
    rfl
  · rw [valueOf?, List.filter_append, List.filter_cons_of_neg (by simpa using Ne.symm hother), ← List.filter_append,
      ← valueOf?]

theorem mapM_congr {read read' : β → Option γ} {l : List β} (h : ∀ a ∈ l, read a = read' a) :
    l.mapM read = l.mapM read' := by
  induction l with
  | nil => rfl
  | cons a l ih =>
      rw [List.mapM_cons, List.mapM_cons, h a List.mem_cons_self, ih (fun b hb => h b (List.mem_cons_of_mem _ hb))]

theorem mapM_set {read read' : β → Option γ} {l : List β} {b : β} {x y : γ} {k : Nat} (hl : l.Nodup)
    (hk : l[k]? = some b) (hx : read b = some x) (hy : read' b = some y) (h : ∀ a ≠ b, read a = read' a) :
    l.mapM read = (l.mapM read').map (fun cs => cs.set k x) := by
  induction l generalizing k with
  | nil => cases hk
  | cons a l ih =>
      obtain ⟨ha, hl⟩ := List.nodup_cons.mp hl
      rw [List.mapM_cons, List.mapM_cons]
      cases k with
      | zero =>
          obtain rfl : a = b := Option.some.inj hk
          have hrest : l.mapM read = l.mapM read' := mapM_congr (fun c hc => h c (fun hca => ha (hca ▸ hc)))
          rw [hx, hy, hrest]
          cases l.mapM read' <;> rfl
      | succ k =>
          have hab : a ≠ b := fun hab => ha (hab ▸ List.mem_of_getElem? hk)
          rw [h a hab, ih hl hk]
          cases read' a <;> cases l.mapM read' <;> rfl

theorem fields?_null {names : List String} {build : List (Option Json) → Option α} {k : Nat} (hnames : names.Nodup)
    (hk : names[k]? = some name)
    (hbuild : ∀ values : List (Option Json), build (values.set k (some .null)) = build (values.set k none))
    (spare : Nat) {front back : List (Option String × Json)} (h : ∀ m ∈ front ++ back, m.1 ≠ some name) :
    (fields? names spare (.object (front ++ (some name, .null) :: back))).bind build =
      (fields? names spare (.object (front ++ back))).bind build := by
  obtain ⟨hnull, habsent, hother⟩ := valueOf?_null h
  have hnulls := mapM_set hnames hk hnull habsent hother
  have habsents := mapM_set hnames hk habsent habsent (fun _ _ => rfl)
  have hnamed : (front ++ (some name, .null) :: back).all (fun m => m.1.isSome) =
      (front ++ back).all (fun m => m.1.isSome) := by
    rw [List.all_append, List.all_cons, List.all_append, Option.isSome_some, Bool.true_and]
  rw [fields?, fields?, hnamed]
  split
  -- both readings are one list of values with the field's place set, to a null and to nothing
  · rw [hnulls, Option.bind_map]
    conv_rhs => rw [habsents, Option.bind_map]
    exact congrArg _ (funext hbuild)
  · rfl

end BucketStore.Record
