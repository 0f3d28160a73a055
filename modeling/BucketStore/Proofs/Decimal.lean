import BucketStore.Text.Decimal
import Mathlib.Data.List.Induction
import Mathlib.Data.Nat.Digits.Defs

namespace BucketStore.Text.Decimal

variable {w n : Nat} {c : Char} {cs : List Char}

theorem isDigit_iff : c.isDigit = true ↔ '0' ≤ c ∧ c ≤ '9' := by
  rw [Char.isDigit, Bool.and_eq_true, decide_eq_true_eq, decide_eq_true_eq]
  rfl

theorem length_fixed (w n : Nat) : (fixed w n).length = w := by
  induction w generalizing n with
  | zero => rfl
  | succ w ih => simp [fixed, ih]

theorem fixed_isDigit {w n : Nat} {c : Char} (h : c ∈ fixed w n) : c.isDigit = true := by
  induction w generalizing n with
  | zero => simp [fixed] at h
  | succ w ih =>
      rw [fixed, List.mem_append, List.mem_singleton] at h
      rcases h with h | rfl
      · exact ih h
      · rw [Nat.isDigit_digitChar, decide_eq_true_eq]
        exact Nat.mod_lt _ (by decide)

theorem exists_fixed (hw : 0 < w) (n : Nat) :
    ∃ c ds, fixed w n = c :: ds ∧ c.isDigit = true := by
  cases hfixed : fixed w n with
  | nil =>
      have hlength := length_fixed w n
      rw [hfixed, List.length_nil] at hlength
      omega
  | cons c ds => exact ⟨c, ds, rfl, fixed_isDigit (hfixed ▸ List.mem_cons_self)⟩

theorem digits_isDigit (n : Nat) : ∀ c ∈ digits n, c.isDigit = true :=
  fun _ hc => Nat.isDigit_of_mem_toDigits (by decide) (by decide) hc

theorem digits_head (h : 0 < n) : ∃ c ds, digits n = c :: ds ∧ c ≠ '0' := by
  induction n using Nat.strong_induction_on with
  | _ n ih =>
      by_cases hn : n < 10
      · exact ⟨n.digitChar, [], Nat.toDigits_of_lt_base hn, fun hc => by rw [Nat.digitChar_eq_zero] at hc; omega⟩
      · obtain ⟨c, ds, hds, hc⟩ := ih (n / 10) (by omega) (by omega)
        refine ⟨c, ds ++ [(n % 10).digitChar], ?_, hc⟩
        rw [digits, Nat.toDigits_of_base_le (by decide) (by omega), ← digits, hds]
        rfl

theorem exists_digits (n : Nat) : ∃ c ds, digits n = c :: ds ∧ c.isDigit = true := by
  obtain ⟨c, ds, hds⟩ := List.exists_cons_of_ne_nil (show digits n ≠ [] from Nat.toDigits_ne_nil)
  exact ⟨c, ds, hds, digits_isDigit n c (by rw [hds]; exact List.mem_cons_self)⟩

theorem value_append (cs ds : List Char) : value (cs ++ ds) = 10 ^ ds.length * value cs + value ds :=
  (Nat.ofDigitChars_append 0).trans Nat.ofDigitChars_eq_ofDigitChars_zero

theorem value_digitChar (h : n < 10) : value [n.digitChar] = n :=
  (Nat.ofDigitChars_cons_digitChar_of_lt_ten h).trans (Nat.zero_add n)

theorem value_eq_ofDigits (cs : List Char) : value cs = Nat.ofDigits 10 (cs.reverse.map digitValue) := by
  induction cs using List.reverseRecOn with
  | nil => rfl
  | append_singleton cs c ih =>
      have hlast : value [c] = digitValue c := Nat.zero_add _
      rw [value_append, ih, List.reverse_append, List.reverse_singleton, List.singleton_append, List.map_cons,
        Nat.ofDigits_cons, hlast, List.length_singleton, Nat.pow_one, Nat.add_comm]

theorem read?_eq_some_iff : read? cs = some n ↔ cs ≠ [] ∧ (∀ c ∈ cs, '0' ≤ c ∧ c ≤ '9') ∧
    Nat.ofDigits 10 (cs.reverse.map digitValue) = n := by
  rw [read?, Option.ite_none_right_eq_some, Option.some_inj, value_eq_ofDigits, List.all_eq_true, and_assoc]
  exact and_congr_right' (and_congr_left' (forall₂_congr (fun _ _ => isDigit_iff)))

theorem exists_sign (cs : List Char) : ∃ sign, (sign = [] ∨ sign = ['+']) ∧ cs = sign ++ unsigned cs := by
  rw [unsigned.eq_def]
  split
  · exact ⟨['+'], .inr rfl, rfl⟩
  · exact ⟨[], .inl rfl, rfl⟩

theorem unsigned_signed {sign digits : List Char} (hsign : sign = [] ∨ sign = ['+'])
    (hdigits : ∀ c ∈ digits, '0' ≤ c ∧ c ≤ '9') : unsigned (sign ++ digits) = digits := by
  rcases hsign with rfl | rfl
  · rw [List.nil_append, unsigned.eq_def]
    split
    · exact absurd (hdigits '+' List.mem_cons_self) (by decide)
    · rfl
  · rfl

theorem value_digits (n : Nat) : value (digits n) = n := Nat.ofDigitChars_ten_toDigits

theorem value_fixed (h : n < 10 ^ w) : value (fixed w n) = n := by
  induction w generalizing n with
  | zero => exact (Nat.lt_one_iff.mp h).symm
  | succ w ih =>
      have hfront : n / 10 < 10 ^ w := by
        rw [Nat.pow_succ] at h
        omega
      rw [fixed, value_append, value_digitChar (Nat.mod_lt _ (by decide)), ih hfront, List.length_singleton]
      omega

theorem value_zeros (k : Nat) : value (List.replicate k '0') = 0 := by
  induction k with
  | zero => rfl
  | succ k ih =>
      rw [List.replicate_succ, ← List.singleton_append, value_append, ih, Nat.add_zero]
      exact Nat.mul_zero _

theorem append_lt_append {a b : List Char} (c d : List Char) (h : a < b) (hlen : a.length = b.length) :
    a ++ c < b ++ d := by
  induction a generalizing b with
  | nil =>
      have hb : b = [] := List.length_eq_zero_iff.mp hlen.symm
      subst hb
      exact absurd h (List.not_lt_nil [])
  | cons x a ih =>
      cases b with
      | nil => cases hlen
      | cons y b =>
          rw [List.cons_append, List.cons_append, List.cons_lt_cons_iff]
          rcases List.cons_lt_cons_iff.mp h with hxy | ⟨rfl, hab⟩
          · exact .inl hxy
          · exact .inr ⟨rfl, ih hab (Nat.succ.inj hlen)⟩

theorem digitChar_lt : ∀ m < 10, ∀ n < 10, m < n → m.digitChar < n.digitChar := by decide

theorem fixed_lt {w m n : Nat} (h : m < n) (hn : n < 10 ^ w) : fixed w m < fixed w n := by
  induction w generalizing m n with
  | zero => rw [Nat.pow_zero] at hn; omega
  | succ w ih =>
      rw [Nat.pow_succ] at hn
      rw [fixed, fixed]
      rcases Nat.lt_or_ge (m / 10) (n / 10) with hlt | hge
      · exact append_lt_append _ _ (ih hlt (by omega)) (by rw [length_fixed, length_fixed])
      · have heq : m / 10 = n / 10 := by omega
        rw [heq]
        refine List.append_left_lt ?_
        rw [List.cons_lt_cons_iff]
        exact .inl (digitChar_lt _ (Nat.mod_lt _ (by decide)) _ (Nat.mod_lt _ (by decide)) (by omega))

end BucketStore.Text.Decimal
