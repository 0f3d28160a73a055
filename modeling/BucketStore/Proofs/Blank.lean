import BucketStore.Text.Blank
import Mathlib.Data.List.TakeWhile

namespace BucketStore.Text

variable {c : Char} {p : Char → Bool} {front core back : List Char}

/-- The characters with the Unicode property White_Space, one by one. -/
def blanks : List Char :=
  ['\t', '\n', '\x0b', '\x0c', '\r', ' ', '\u0085', '\u00a0', '\u1680', '\u2000', '\u2001', '\u2002', '\u2003',
    '\u2004', '\u2005', '\u2006', '\u2007', '\u2008', '\u2009', '\u200a', '\u2028', '\u2029', '\u202f', '\u205f',
    '\u3000']

theorem isBlank_iff : isBlank c = true ↔ c ∈ blanks := by
  have hcode : ∀ d : Char, c = d ↔ c.toNat = d.toNat := fun d => Char.toNat_inj.symm
  simp only [blanks, List.mem_cons, List.not_mem_nil, or_false, hcode, Char.reduceToNat]
  simp only [isBlank, Bool.or_eq_true, Bool.and_eq_true, decide_eq_true_eq, beq_iff_eq]
  omega

theorem not_blank_of_digit (h : '0' ≤ c ∧ c ≤ '9') : isBlank c = false := by
  have hlow : 48 ≤ c.toNat := h.1
  have hhigh : c.toNat ≤ 57 := h.2
  simp [isBlank]
  omega

theorem span_append (rest : List Char) (hfront : ∀ c ∈ front, p c = true) (hrest : ∀ c ∈ rest.head?, p c = false) :
    (front ++ rest).takeWhile p = front ∧ (front ++ rest).dropWhile p = rest := by
  rw [List.takeWhile_append_of_pos hfront, List.dropWhile_append_of_pos hfront]
  cases rest with
  | nil => simp
  | cons c rest =>
      have hc : ¬ p c = true := by simp [hrest c rfl]
      rw [List.takeWhile_cons_of_neg hc, List.dropWhile_cons_of_neg hc, List.append_nil]
      exact ⟨rfl, rfl⟩

theorem head_dropWhile (p : Char → Bool) (cs : List Char) : ∀ c ∈ (cs.dropWhile p).head?, p c = false := by
  intro c hc
  have hstop := List.head?_dropWhile_not p cs
  rw [hc] at hstop
  exact hstop

theorem getLast_trim (p : Char → Bool) (cs : List Char) : ∀ c ∈ (trim p cs).getLast?, p c = false := by
  rw [trim, List.getLast?_reverse]
  exact head_dropWhile p _

theorem exists_trim (p : Char → Bool) (cs : List Char) : ∃ front back, cs = front ++ trim p cs ++ back ∧
    (∀ c ∈ front, p c = true) ∧ ∀ c ∈ back, p c = true := by
  have hfront : cs = cs.takeWhile p ++ cs.dropWhile p := List.takeWhile_append_dropWhile.symm
  have hback : cs.dropWhile p = trim p cs ++ ((cs.dropWhile p).reverse.takeWhile p).reverse := by
    rw [trim, ← List.reverse_append, List.takeWhile_append_dropWhile, List.reverse_reverse]
  refine ⟨cs.takeWhile p, ((cs.dropWhile p).reverse.takeWhile p).reverse, ?_, fun c hc => List.mem_takeWhile_imp hc,
    fun c hc => List.mem_takeWhile_imp (List.mem_reverse.mp hc)⟩
  rw [List.append_assoc, ← hback]
  exact hfront

theorem trim_eq (hfront : ∀ c ∈ front, p c = true) (hback : ∀ c ∈ back, p c = true)
    (hfirst : ∀ c ∈ core.head?, p c = false) (hlast : ∀ c ∈ core.getLast?, p c = false) :
    trim p (front ++ core ++ back) = core := by
  have hend : (back.reverse ++ core.reverse).dropWhile p = core.reverse :=
    (span_append _ (fun c hc => hback c (List.mem_reverse.mp hc)) (by simpa using hlast)).2
  rw [trim, List.append_assoc]
  cases core with
  | nil =>
      have hnone : (front ++ back).dropWhile p = [] :=
        List.dropWhile_eq_nil_iff.mpr (fun c hc => (List.mem_append.mp hc).elim (hfront c) (hback c))
      rw [List.nil_append, hnone]
      rfl
  | cons c core =>
      have hstart : (front ++ (c :: core ++ back)).dropWhile p = c :: core ++ back :=
        (span_append _ hfront (by simpa using hfirst c rfl)).2
      rw [hstart, List.reverse_append, hend, List.reverse_reverse]

end BucketStore.Text
