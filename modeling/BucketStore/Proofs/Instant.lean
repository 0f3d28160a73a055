import BucketStore.Instant.Reader
import BucketStore.Instant.Writer
import BucketStore.Proofs.Blank
import BucketStore.Proofs.Decimal

namespace BucketStore

open Text

namespace Date

theorem of?_self (d : Date) : of? d.year d.month d.day = some d := dif_pos d.inCalendar

end Date

namespace Instant

variable {c d : Char} {w n : Nat} {ds rest : List Char}

theorem of?_self (i : Instant) : of? i.date i.minute i.second i.nano = some i := dif_pos i.inDay

theorem shift?_zero (i : Instant) : i.shift? 0 = some i := by
  have hday := i.inDay.1
  rw [shift?, Int.sub_zero, if_neg (by omega), if_pos (by omega), Int.toNat_natCast, of?_self]

theorem dropBlank_cons (h : isBlank c = false) : dropBlank (c :: rest) = c :: rest :=
  List.dropWhile_cons_of_neg (by simp [h])

theorem spanDigits_append (hds : ∀ c ∈ ds, c.isDigit = true) (k : Nat) (rest : List Char) :
    spanDigits (ds.length + k) (ds ++ rest) = (ds ++ (spanDigits k rest).1, (spanDigits k rest).2) := by
  induction ds with
  | nil => rw [List.length_nil, Nat.zero_add, List.nil_append, List.nil_append]
  | cons d ds ih =>
      have hrest := ih (fun c hc => hds c (List.mem_cons_of_mem _ hc))
      rw [List.length_cons, Nat.add_right_comm, List.cons_append, spanDigits, if_pos (hds d List.mem_cons_self), hrest,
        List.cons_append]

theorem spanDigits_zero (rest : List Char) : spanDigits 0 rest = ([], rest) := by
  cases rest <;> rfl

theorem spanDigits_fixed (w n : Nat) (rest : List Char) :
    spanDigits w (Decimal.fixed w n ++ rest) = (Decimal.fixed w n, rest) := by
  have hspan := spanDigits_append (fun _ => Decimal.fixed_isDigit (w := w) (n := n)) 0 rest
  rw [Decimal.length_fixed, Nat.add_zero, spanDigits_zero, List.append_nil] at hspan
  exact hspan

theorem dropBlank_fixed (hw : 0 < w) (n : Nat) (rest : List Char) :
    dropBlank (Decimal.fixed w n ++ rest) = Decimal.fixed w n ++ rest := by
  obtain ⟨c, ds, hfixed, hc⟩ := Decimal.exists_fixed hw n
  rw [hfixed, List.cons_append, dropBlank_cons (not_blank_of_digit (Decimal.isDigit_iff.mp hc))]

theorem digits?_fixed (hw : 0 < w) (hn : n < 10 ^ w) (rest : List Char) :
    digits? w (Decimal.fixed w n ++ rest) = some (n, rest) := by
  rw [digits?, spanDigits_fixed]
  split
  · rename_i heq
    obtain ⟨c, ds, hfixed, _⟩ := Decimal.exists_fixed hw n
    rw [hfixed] at heq
    cases heq
  · rename_i heq
    cases heq
    rw [Decimal.value_fixed hn]

theorem field?_fixed (hn : n < 100) (rest : List Char) : field? 2 (Decimal.fixed 2 n ++ rest) = some (n, rest) := by
  rw [field?, dropBlank_fixed (by decide), digits?_fixed (by decide) hn]

theorem year?_written {year : Int} (h : 0 ≤ year ∧ year ≤ 9999) (rest : List Char) :
    year? (writtenYear year ++ rest) = some (year, rest) := by
  obtain ⟨c, ds, hfixed, hc⟩ := Decimal.exists_fixed (w := 4) (by decide) year.toNat
  have hread := digits?_fixed (w := 4) (n := year.toNat) (by decide) (by omega) rest
  rw [writtenYear, if_pos h, year?, dropBlank_fixed (by decide)]
  rw [hfixed] at hread ⊢
  split
  · rename_i heq
    cases heq
    cases hc
  · rename_i heq
    cases heq
    cases hc
  · rw [hread, Option.map_some]
    dsimp only
    rw [Int.toNat_of_nonneg h.1]

theorem separator?_cons (hc : isBlank c = false) (rest : List Char) : separator? c (c :: rest) = some rest := by
  rw [separator?, dropBlank_cons hc]
  exact if_pos rfl

theorem fraction?_point (hw : 0 < w) (hle : w ≤ 9) (hn : n < 10 ^ w) :
    fraction? ('.' :: Decimal.fixed w n ++ ['Z']) = some (10 ^ (9 - w) * n, ['Z']) := by
  have hspan := spanDigits_append (fun _ => Decimal.fixed_isDigit (w := w) (n := n)) (9 - w) ['Z']
  rw [Decimal.length_fixed, Nat.add_sub_cancel' hle, show spanDigits (9 - w) ['Z'] = ([], ['Z']) by
    cases 9 - w <;> rfl, List.append_nil] at hspan
  rw [List.cons_append, fraction?, hspan]
  split
  · rename_i heq
    obtain ⟨c, ds, hfixed, _⟩ := Decimal.exists_fixed hw n
    rw [hfixed] at heq
    cases heq
  · rename_i heq
    cases heq
    rw [Decimal.value_append, Decimal.value_fixed hn, Decimal.value_zeros, Nat.add_zero, List.length_replicate,
      Decimal.length_fixed]
    rfl

theorem fraction?_written (hn : n < 1000000000) : fraction? (writtenFraction n ++ ['Z']) = some (n, ['Z']) := by
  rw [writtenFraction]
  split_ifs with hzero hmilli hmicro
  · rw [hzero]
    rfl
  · rw [fraction?_point (by decide) (by decide) (by omega)]
    congr 2
    omega
  · rw [fraction?_point (by decide) (by decide) (by omega)]
    congr 2
    omega
  · rw [fraction?_point (by decide) (by decide) (by omega)]
    congr 2
    omega

theorem timeMark?_mark (rest : List Char) : timeMark? ('T' :: rest) = some rest := rfl

theorem zone?_mark : zone? (dropBlank ['Z']) = some (0, []) := by decide

theorem read?_write {i : Instant} (h : 0 ≤ i.date.year ∧ i.date.year ≤ 9999) : read? i.write = some i := by
  obtain ⟨hminute, hsecond, hnano⟩ := i.inDay
  obtain ⟨_, _, _, hmonth, _, hday⟩ := i.date.inCalendar
  have hdays : i.date.day < 100 := hday.trans_lt (by rw [daysIn]; split_ifs <;> decide)
  rw [read?, write, String.toList_ofList, written]
  simp only [List.append_assoc, List.cons_append]
  refine Option.bind_eq_some_iff.mpr ⟨_, year?_written h _, ?_⟩
  refine Option.bind_eq_some_iff.mpr ⟨_, separator?_cons rfl _, ?_⟩
  refine Option.bind_eq_some_iff.mpr ⟨_, field?_fixed (by omega) _, ?_⟩
  refine Option.bind_eq_some_iff.mpr ⟨_, separator?_cons rfl _, ?_⟩
  refine Option.bind_eq_some_iff.mpr ⟨_, field?_fixed hdays _, ?_⟩
  refine Option.bind_eq_some_iff.mpr ⟨_, timeMark?_mark _, ?_⟩
  refine Option.bind_eq_some_iff.mpr ⟨_, field?_fixed (by omega) _, ?_⟩
  refine Option.bind_eq_some_iff.mpr ⟨_, separator?_cons rfl _, ?_⟩
  refine Option.bind_eq_some_iff.mpr ⟨_, field?_fixed (by omega) _, ?_⟩
  refine Option.bind_eq_some_iff.mpr ⟨_, separator?_cons rfl _, ?_⟩
  refine Option.bind_eq_some_iff.mpr ⟨_, field?_fixed (by omega) _, ?_⟩
  refine Option.bind_eq_some_iff.mpr ⟨_, fraction?_written hnano, ?_⟩
  refine Option.bind_eq_some_iff.mpr ⟨_, zone?_mark, ?_⟩
  refine Option.bind_eq_some_iff.mpr ⟨_, Date.of?_self _, ?_⟩
  have hclock : 60 * (i.minute / 60) + i.minute % 60 = i.minute := Nat.div_add_mod _ _
  dsimp only
  rw [if_pos ⟨by omega, by omega, rfl⟩, hclock, of?_self, Option.bind_some, shift?_zero]

end Instant

end BucketStore
