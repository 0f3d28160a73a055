import BucketStore.Proofs.Decimal
import BucketStore.VersionId
import Mathlib.Data.String.Basic

namespace BucketStore

namespace VersionId

open Text

theorem ofCounter_lt {m n : UInt64} (h : m < n) : ofCounter m < ofCounter n := by
  rw [String.lt_iff_toList_lt, ofCounter, ofCounter, String.toList_ofList, String.toList_ofList]
  exact Decimal.fixed_lt (UInt64.lt_iff_toNat_lt.mp h) (n.toNat_lt.trans (by decide))

theorem ofCounter_lt_iff {m n : UInt64} : ofCounter m < ofCounter n ↔ m < n := by
  refine ⟨fun h => ?_, ofCounter_lt⟩
  rcases Std.lt_trichotomy m n with hlt | rfl | hgt
  · exact hlt
  · exact absurd h (lt_irrefl _)
  · exact absurd h (lt_asymm (ofCounter_lt hgt))

theorem ofCounter_injective {m n : UInt64} (h : ofCounter m = ofCounter n) : m = n := by
  rcases Std.lt_trichotomy m n with hlt | rfl | hgt
  · exact absurd h (ofCounter_lt hlt).ne
  · rfl
  · exact absurd h (ofCounter_lt hgt).ne'

theorem utf8ByteSize_ofCounter (n : UInt64) : (ofCounter n).utf8ByteSize = 20 := by
  have hsize : ∀ cs : List Char, (∀ c ∈ cs, c.isDigit = true) → (String.ofList cs).utf8ByteSize = cs.length := by
    intro cs
    induction cs with
    | nil => intro _; rfl
    | cons c cs ih =>
        intro h
        have hc : c.utf8Size = 1 := by
          have hd := h c List.mem_cons_self
          simp only [Char.isDigit, Bool.and_eq_true, decide_eq_true_eq] at hd
          rw [Char.utf8Size_eq_one_iff]
          exact UInt32.le_trans hd.2 (by decide)
        rw [String.ofList_cons, String.utf8ByteSize_append, String.utf8ByteSize_singleton, hc,
          ih (fun d hd => h d (List.mem_cons_of_mem _ hd)), List.length_cons, Nat.add_comm]
  rw [ofCounter, hsize _ (fun _ => Decimal.fixed_isDigit), Decimal.length_fixed]

theorem ofCounter_ne_null (n : UInt64) : ofCounter n ≠ null := by
  intro h
  have hsize := utf8ByteSize_ofCounter n
  rw [h] at hsize
  exact absurd hsize (by decide)

theorem ofCounter_ne_empty (n : UInt64) : ofCounter n ≠ "" := by
  intro h
  have hsize := utf8ByteSize_ofCounter n
  rw [h] at hsize
  exact absurd hsize (by decide)

theorem olderThan_ofCounter {m n : UInt64} : olderThan (ofCounter m) (ofCounter n) = true ↔ m < n := by
  simp only [olderThan, Bool.and_eq_true, decide_eq_true_eq, utf8ByteSize_ofCounter, ofCounter_lt_iff,
    ne_eq, ofCounter_ne_null, not_false_eq_true, true_and, decide_true]

theorem not_olderThan_of_null (marker : String) : olderThan null marker = false := by
  simp [olderThan]

variable {first : UInt64} {count i j : Nat}

/-- The text gives `n` in decimal with twenty ASCII digits. -/
def Spells (id : String) (n : Nat) : Prop :=
  id.length = 20 ∧ (∀ c ∈ id.toList, '0' ≤ c ∧ c ≤ '9') ∧
    Nat.ofDigits 10 (id.toList.reverse.map Decimal.digitValue) = n

theorem spells_ofCounter (n : UInt64) : Spells (ofCounter n) n.toNat := by
  have hfits : n.toNat < 10 ^ 20 := n.toNat_lt.trans (by decide)
  rw [Spells, ofCounter, String.length_ofList, String.toList_ofList, ← Decimal.value_eq_ofDigits]
  exact ⟨Decimal.length_fixed 20 _, fun c hc => Decimal.isDigit_iff.mp (Decimal.fixed_isDigit hc),
    Decimal.value_fixed hfits⟩

/-- Zero comes after the last value of the counter, and after that one only. -/
theorem restarts_iff (n : UInt64) :
    ofCounter n = "18446744073709551615" ↔ ofCounter (n + 1) = "00000000000000000000" := by
  have hlast : "18446744073709551615" = ofCounter 18446744073709551615 := by decide
  have hzero : "00000000000000000000" = ofCounter 0 := by decide
  rw [hlast, hzero]
  constructor
  · intro h
    rw [ofCounter_injective h]
    rfl
  · intro h
    have hnext : n + 1 = 0 := ofCounter_injective h
    exact congrArg ofCounter (UInt64.eq_sub_iff_add_eq.mpr hnext)

theorem drawn_succ (first : UInt64) (i : Nat) : first + UInt64.ofNat (i + 1) = first + 1 + UInt64.ofNat i := by
  rw [UInt64.ofNat_add, UInt64.add_comm (UInt64.ofNat i), ← UInt64.add_assoc]
  rfl

theorem toNat_drawn (first : UInt64) (i : Nat) : (first + UInt64.ofNat i).toNat = (first.toNat + i) % 2 ^ 64 := by
  rw [UInt64.toNat_add, UInt64.toNat_ofNat', Nat.add_mod_mod]

theorem drawn_lt_iff : first + UInt64.ofNat i < first + UInt64.ofNat j ↔
    (first.toNat + i) % 2 ^ 64 < (first.toNat + j) % 2 ^ 64 := by
  rw [UInt64.lt_iff_toNat_lt, toNat_drawn, toNat_drawn]

theorem issue_eq_map (first : UInt64) (count : Nat) :
    issue first count = (List.range count).map (fun i => ofCounter (first + UInt64.ofNat i)) := by
  induction count generalizing first with
  | zero => rfl
  | succ count ih =>
      rw [issue, ih, List.range_succ_eq_map, List.map_cons, List.map_map]
      refine List.cons_eq_cons.mpr ⟨congrArg ofCounter (UInt64.add_zero first).symm, ?_⟩
      exact List.map_congr_left (fun i _ => congrArg ofCounter (drawn_succ first i).symm)

theorem length_issue (first : UInt64) (count : Nat) : (issue first count).length = count := by
  rw [issue_eq_map, List.length_map, List.length_range]

theorem getElem_issue (h : i < (issue first count).length) :
    (issue first count)[i] = ofCounter (first + UInt64.ofNat i) := by
  simp only [issue_eq_map, List.getElem_map, List.getElem_range]

theorem spells_issue (h : i < (issue first count).length) :
    Spells (issue first count)[i] ((first.toNat + i) % 2 ^ 64) := by
  rw [getElem_issue h, ← toNat_drawn]
  exact spells_ofCounter _

theorem issue_restarts_iff (h : i + 1 < (issue first count).length) :
    (issue first count)[i] = "18446744073709551615" ↔ (issue first count)[i + 1] = "00000000000000000000" := by
  have hnext : first + UInt64.ofNat (i + 1) = first + UInt64.ofNat i + 1 := by
    rw [UInt64.ofNat_add, ← UInt64.add_assoc]
    rfl
  rw [getElem_issue h, getElem_issue (Nat.lt_of_succ_lt h), restarts_iff, hnext]

theorem null_not_mem_issue : null ∉ issue first count := by
  intro hnull
  rw [issue_eq_map, List.mem_map] at hnull
  obtain ⟨i, _, hid⟩ := hnull
  exact ofCounter_ne_null _ hid

theorem issue_ascending_iff : (issue first count).Pairwise (· < ·) ↔ first.toNat + count ≤ 2 ^ 64 := by
  have hfirst := first.toNat_lt
  rw [issue_eq_map, List.pairwise_map, List.pairwise_iff_getElem]
  simp only [List.getElem_range, List.length_range, ofCounter_lt_iff, drawn_lt_iff]
  constructor
  · intro h
    by_contra hwraps
    have hlast := h (2 ^ 64 - 1 - first.toNat) (2 ^ 64 - first.toNat) (by omega) (by omega) (by omega)
    omega
  · intro hfits i j _ hj hij
    omega

section Unwrapped

variable (hfits : first.toNat + count ≤ 2 ^ 64)
include hfits

theorem value_unwrapped (h : i < (issue first count).length) : (first.toNat + i) % 2 ^ 64 = first.toNat + i := by
  rw [length_issue] at h
  exact Nat.mod_eq_of_lt (by omega)

theorem olderThan_issue_iff (hi : i < (issue first count).length) (hj : j < (issue first count).length) :
    olderThan (issue first count)[i] (issue first count)[j] = true ↔ i < j := by
  rw [getElem_issue hi, getElem_issue hj, olderThan_ofCounter, drawn_lt_iff, value_unwrapped hfits hi,
    value_unwrapped hfits hj, Nat.add_lt_add_iff_left]

end Unwrapped

end VersionId

end BucketStore
