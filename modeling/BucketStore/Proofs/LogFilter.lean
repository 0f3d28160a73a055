import BucketStore.LogFilter
import BucketStore.Proofs.LogFilter.Directive

namespace BucketStore.LogFilter

open Text

/-- A directive that is passed over, or read without a fault. -/
def Accepted (directive : List Char) : Prop := directive = [] ∨ fault? directive = none

variable {filter : String} {fault : Fault}

theorem accepted_iff {directive : List Char} :
    (if directive = [] then none else fault? directive) = none ↔ Accepted directive := by
  rw [Accepted]
  split <;> simp_all

theorem firstFault?_eq_none_iff : firstFault? filter = none ↔ ∀ d ∈ filter.toList.splitOn ',', Accepted d := by
  rw [firstFault?, List.findSome?_eq_none_iff]
  exact forall₂_congr (fun _ _ => accepted_iff)

theorem firstFault?_eq_some_iff : firstFault? filter = some fault ↔ ∃ front d back,
    filter.toList.splitOn ',' = front ++ d :: back ∧ (d ≠ [] ∧ fault? d = some fault) ∧ ∀ x ∈ front, Accepted x := by
  rw [firstFault?, List.findSome?_eq_some_iff]
  simp only [Option.ite_none_left_eq_some, accepted_iff, ne_eq]

/-- A filter is refused for its first faulty directive, whatever else was set up before. One without faults is
installed once. -/
theorem install_exact (taken : Bool) (filter : String) :
    (install taken filter = .ok () ↔ taken = false ∧ ∀ d ∈ filter.toList.splitOn ',', Accepted d) ∧
    (∀ reason, install taken filter = .error (.internal reason) ↔
      (taken = true ∧ ∀ d ∈ filter.toList.splitOn ',', Accepted d) ∧
        reason = "failed to install subscriber: a global default trace dispatcher has already been set") ∧
    ∀ reason, install taken filter = .error (.config reason) ↔ ∃ fault,
      (∃ front d back, filter.toList.splitOn ',' = front ++ d :: back ∧ (d ≠ [] ∧ fault? d = some fault) ∧
        ∀ x ∈ front, Accepted x) ∧
      reason = "invalid log level filter " ++ filter ++ ": " ++ fault.message := by
  simp only [← firstFault?_eq_none_iff, ← firstFault?_eq_some_iff, install]
  cases firstFault? filter with
  | none => cases taken <;> simp [eq_comm]
  | some fault => simp [eq_comm]

/-- What a filter may say, for one whose directives start with no blanks. -/
theorem install_eq_ok_iff (h : ∀ d ∈ filter.toList.splitOn ',', ∀ c ∈ d.head?, isBlank c = false) :
    install false filter = .ok () ↔ ∀ d ∈ filter.toList.splitOn ',', d = [] ∨ Directive d := by
  rw [(install_exact false filter).1]
  simp only [true_and]
  exact forall₂_congr (fun d hd => or_congr_right (fault?_eq_none_iff (h d hd)))

example : install false "info,store=debug,,[span\x7bn=.*\x7d]=1" = .ok () ∧
    install true "store=loud" = .error (.config ("invalid log level filter store=loud: " ++ Fault.level.message)) := by
  decide +kernel

end BucketStore.LogFilter
