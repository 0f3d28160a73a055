import BucketStore.Json.Reader
import BucketStore.Json.Writer
import BucketStore.Proofs.Decimal
import BucketStore.Proofs.Json.Text

namespace BucketStore.Json

open Text

variable {c : Char} {n : Nat} {cs rest : List Char} {v : Json}

/-- What may stand behind a written value: the end, or what separates or closes values. -/
def Stops : List Char → Prop
  | [] => True
  | c :: _ => c = ',' ∨ c = ']' ∨ c = '\x7d'

theorem spanDigits_append (h : ∀ c ∈ cs, c.isDigit = true) (hrest : Stops rest) :
    spanDigits (cs ++ rest) = (cs, rest) := by
  have hnone : rest.takeWhile Char.isDigit = [] ∧ rest.dropWhile Char.isDigit = rest := by
    cases rest with
    | nil => exact ⟨rfl, rfl⟩
    | cons c rest => rcases hrest with rfl | rfl | rfl <;> exact ⟨rfl, rfl⟩
  rw [spanDigits, List.takeWhile_append_of_pos h, List.dropWhile_append_of_pos h, hnone.1, hnone.2, List.append_nil]

theorem whole?_digits (n : Nat) (hrest : Stops rest) : whole? (Decimal.digits n ++ rest) = some (n, rest) := by
  rw [whole?, spanDigits_append (Decimal.digits_isDigit n) hrest]
  rcases Nat.eq_zero_or_pos n with rfl | hn
  · rfl
  · obtain ⟨c, ds, hds, hc⟩ := Decimal.digits_head hn
    have hvalue := Decimal.value_digits n
    rw [hds] at hvalue ⊢
    split
    · rename_i heq
      cases heq
    · rename_i heq
      cases heq
      exact absurd rfl hc
    · rename_i heq
      cases heq
      rw [hvalue]

theorem fraction?_stops (hrest : Stops rest) : fraction? rest = some (false, rest) := by
  cases rest with
  | nil => rfl
  | cons c rest => rcases hrest with rfl | rfl | rfl <;> rfl

theorem exponent?_stops (hrest : Stops rest) : exponent? rest = some (false, rest) := by
  cases rest with
  | nil => rfl
  | cons c rest => rcases hrest with rfl | rfl | rfl <;> rfl

theorem readNumber?_digits (n : Nat) (hrest : Stops rest) :
    readNumber? (Decimal.digits n ++ rest) = some (.natural n, rest) := by
  obtain ⟨c, ds, hds, hc⟩ := Decimal.exists_digits n
  have hminus : c ≠ '-' := by
    rintro rfl
    cases hc
  have hwhole := whole?_digits n hrest
  rw [hds, List.cons_append] at hwhole ⊢
  rw [readNumber?]
  · simp only [hwhole, fraction?_stops hrest, exponent?_stops hrest, Option.bind_eq_bind, Option.bind_some]
    rfl
  · exact fun _ h => hminus (List.cons.inj h).1

theorem readNumber?_otherNumber (hrest : Stops rest) :
    readNumber? ('-' :: '0' :: rest) = some (.otherNumber, rest) := by
  have hwhole : whole? ('0' :: rest) = some (0, rest) := whole?_digits 0 hrest
  rw [readNumber?]
  simp only [hwhole, fraction?_stops hrest, exponent?_stops hrest, Option.bind_eq_bind, Option.bind_some]
  rfl

theorem not_blank_of_digit (h : c.isDigit = true) : isBlank c = false := by
  rw [Bool.eq_false_iff]
  intro hblank
  simp only [isBlank, Bool.or_eq_true, decide_eq_true_eq, or_assoc] at hblank
  rcases hblank with rfl | rfl | rfl | rfl <;> cases h

theorem written_head (v : Json) : ∃ c cs, written v = c :: cs ∧ isBlank c = false ∧ c ≠ ']' := by
  cases v with
  | null => exact ⟨_, _, by rw [written], rfl, by decide⟩
  | bool b => cases b <;> exact ⟨_, _, by rw [written], rfl, by decide⟩
  | natural n =>
      obtain ⟨c, ds, hds, hc⟩ := Decimal.exists_digits n
      refine ⟨c, ds, by rw [written, hds], not_blank_of_digit hc, ?_⟩
      rintro rfl
      cases hc
  | otherNumber => exact ⟨_, _, by rw [written], rfl, by decide⟩
  | text t =>
      obtain ⟨body, hbody, _⟩ := readText?_writeText t
      exact ⟨_, _, by rw [written, hbody], rfl, by decide⟩
  | array items =>
      cases items with
      | nil => exact ⟨_, _, by rw [written], rfl, by decide⟩
      | cons v l => exact ⟨_, _, by rw [written, List.cons_append], rfl, by decide⟩
  | object members =>
      rcases members with _ | ⟨⟨key, v⟩, l⟩
      · exact ⟨_, _, by rw [written], rfl, by decide⟩
      · exact ⟨_, _, by rw [written, List.cons_append, List.cons_append], rfl, by decide⟩

theorem dropBlank_cons (h : isBlank c = false) : dropBlank (c :: cs) = c :: cs :=
  List.dropWhile_cons_of_neg (by simp [h])

theorem dropBlank_written (v : Json) (rest : List Char) : dropBlank (written v ++ rest) = written v ++ rest := by
  obtain ⟨c, cs, hcs, hblank, _⟩ := written_head v
  rw [hcs, List.cons_append, dropBlank_cons hblank]

theorem stops_writtenItems (l : List Json) (rest : List Char) : Stops (writtenItems l ++ rest) := by
  cases l with
  | nil => exact .inr (.inl rfl)
  | cons v l => exact .inl rfl

theorem stops_writtenMembers (l : List (Option String × Json)) (rest : List Char) :
    Stops (writtenMembers l ++ rest) := by
  rcases l with _ | ⟨⟨key, v⟩, l⟩
  · exact .inr (.inr rfl)
  · exact .inl rfl

theorem readValue?_number (m : Nat) (hcs : dropBlank cs = c :: rest) (hc : c.isDigit = true ∨ c = '-') :
    readValue? (m + 1) cs = readNumber? (c :: rest) := by
  rw [readValue?, hcs]
  split
  case h_7 => rfl
  all_goals
    rename_i heq
    cases heq
    rcases hc with hc | hc <;> cases hc

theorem readValue?_array (m : Nat) (hcs : dropBlank cs = c :: rest) (hc : c ≠ ']') :
    readValue? (m + 1) ('[' :: cs) = (readItems? m (c :: rest)).map (fun (l, rest) => (.array l, rest)) := by
  rw [readValue?, dropBlank_cons rfl]
  simp only
  rw [hcs]
  split
  · rename_i heq
    exact absurd (List.cons.inj heq).1 hc
  · rfl

theorem readValue?_object (m : Nat) (hcs : dropBlank cs = c :: rest) (hc : c ≠ '\x7d') :
    readValue? (m + 1) ('\x7b' :: cs) = (readMembers? m (c :: rest)).map (fun (l, rest) => (.object l, rest)) := by
  rw [readValue?, dropBlank_cons rfl]
  simp only
  rw [hcs]
  split
  · rename_i heq
    exact absurd (List.cons.inj heq).1 hc
  · rfl

/-- Values are read back with this much fuel: two steps for each character of their written form, and one more for what
follows a bracket. -/
structure ReadsBack (m : Nat) : Prop where
  value : ∀ v rest, Stops rest → 2 * (written v).length ≤ m → readValue? m (written v ++ rest) = some (v, rest)
  items : ∀ v l rest, 2 * (written v ++ writtenItems l).length < m →
    readItems? m (written v ++ (writtenItems l ++ rest)) = some (v :: l, rest)
  members : ∀ key v l rest, 2 * (writeText key ++ ':' :: written v ++ writtenMembers l).length < m →
    readMembers? m (writeText key ++ ':' :: (written v ++ (writtenMembers l ++ rest))) = some ((key, v) :: l, rest)

theorem ReadsBack.value_step {m : Nat} (h : ReadsBack m) (hrest : Stops rest) (hm : 2 * (written v).length ≤ m + 1) :
    readValue? (m + 1) (written v ++ rest) = some (v, rest) := by
  cases v with
  | null =>
      rw [readValue?, dropBlank_written, written]
      rfl
  | bool b =>
      rw [readValue?, dropBlank_written]
      cases b <;> (rw [written]; rfl)
  | natural n =>
      obtain ⟨c, ds, hds, hc⟩ := Decimal.exists_digits n
      have hread := readNumber?_digits n hrest
      have hblank := dropBlank_written (.natural n) rest
      rw [written] at hblank ⊢
      rw [hds, List.cons_append] at hread hblank ⊢
      rw [readValue?_number m hblank (.inl hc), hread]
  | otherNumber =>
      have hblank := dropBlank_written .otherNumber rest
      rw [written] at hblank ⊢
      exact (readValue?_number m hblank (.inr rfl)).trans (readNumber?_otherNumber hrest)
  | text t =>
      obtain ⟨body, hbody, hread⟩ := readText?_writeText t
      rw [readValue?, dropBlank_written, written, hbody]
      simp only [List.cons_append]
      rw [hread, Option.map_some]
  | array items =>
      cases items with
      | nil =>
          rw [readValue?, dropBlank_written, written]
          rfl
      | cons v l =>
          obtain ⟨c, cs, hcs, _, hclose⟩ := written_head v
          have hfirst := dropBlank_written v (writtenItems l ++ rest)
          have hitems := h.items v l rest (by
            rw [written] at hm
            simp only [List.cons_append, List.length_cons] at hm
            omega)
          rw [hcs, List.cons_append] at hfirst hitems
          rw [written, List.cons_append, List.cons_append, List.append_assoc, hcs, List.cons_append,
            readValue?_array m hfirst hclose, hitems, Option.map_some]
  | object members =>
      rcases members with _ | ⟨⟨key, v⟩, l⟩
      · rw [readValue?, dropBlank_written, written]
        rfl
      · obtain ⟨body, hbody, _⟩ := readText?_writeText key
        have hmembers := h.members key v l rest (by
          rw [written] at hm
          simp only [List.cons_append, List.length_cons] at hm
          omega)
        rw [written, List.cons_append, List.cons_append, List.cons_append, List.append_assoc, List.append_assoc,
          List.cons_append]
        rw [hbody, List.cons_append] at hmembers ⊢
        rw [readValue?_object m rfl (by decide), hmembers, Option.map_some]

theorem ReadsBack.items_step {m : Nat} (h : ReadsBack m) (v : Json) (l : List Json) (rest : List Char)
    (hm : 2 * (written v ++ writtenItems l).length < m + 1) :
    readItems? (m + 1) (written v ++ (writtenItems l ++ rest)) = some (v :: l, rest) := by
  rw [List.length_append] at hm
  rw [readItems?, h.value v _ (stops_writtenItems l rest) (by omega)]
  cases l with
  | nil =>
      rw [writtenItems]
      rfl
  | cons w l =>
      have hitems := h.items w l rest (by
        rw [writtenItems, List.cons_append, List.length_cons] at hm
        omega)
      rw [writtenItems, List.cons_append, List.cons_append, List.append_assoc]
      simp only [dropBlank_cons (c := ',') rfl, hitems, Option.map_some]

theorem ReadsBack.members_step {m : Nat} (h : ReadsBack m) (key : Option String) (v : Json)
    (l : List (Option String × Json)) (rest : List Char)
    (hm : 2 * (writeText key ++ ':' :: written v ++ writtenMembers l).length < m + 1) :
    readMembers? (m + 1) (writeText key ++ ':' :: (written v ++ (writtenMembers l ++ rest))) =
      some ((key, v) :: l, rest) := by
  obtain ⟨body, hbody, hread⟩ := readText?_writeText key
  rw [hbody] at hm
  simp only [List.cons_append, List.length_cons, List.length_append] at hm
  rw [readMembers?, hbody, List.cons_append, dropBlank_cons rfl]
  simp only [hread]
  rw [dropBlank_cons rfl]
  simp only [h.value v _ (stops_writtenMembers l rest) (show 2 * (written v).length ≤ m by omega)]
  rcases l with _ | ⟨⟨next, w⟩, l⟩
  · rw [writtenMembers]
    rfl
  · have hmembers := h.members next w l rest (by
      rw [writtenMembers] at hm
      simp only [List.cons_append, List.length_cons, List.length_append] at hm ⊢
      omega)
    rw [writtenMembers]
    simp only [List.cons_append, List.append_assoc, dropBlank_cons (c := ',') rfl, hmembers, Option.map_some]

theorem readsBack (m : Nat) : ReadsBack m := by
  induction m with
  | zero =>
      refine ⟨fun v rest _ hm => ?_, fun _ _ _ hm => absurd hm (Nat.not_lt_zero _),
        fun _ _ _ _ hm => absurd hm (Nat.not_lt_zero _)⟩
      obtain ⟨c, cs, hcs, _⟩ := written_head v
      rw [hcs, List.length_cons] at hm
      omega
  | succ m ih => exact ⟨fun _ _ => ih.value_step, ih.items_step, ih.members_step⟩

theorem read?_write (v : Json) : Json.read? v.write = some v := by
  have hread := (readsBack (2 * v.write.length + 2)).value v [] trivial (by
    rw [write, String.length_ofList]
    omega)
  rw [List.append_nil] at hread
  rw [Json.read?, write, String.toList_ofList, ← write, hread]
  rfl

end BucketStore.Json
