import BucketStore.Proofs.Blank
import BucketStore.Proofs.Decimal
import BucketStore.Proofs.Utf8
import BucketStore.Settings

namespace BucketStore.Settings

open Text

variable {text : String} {n : Nat} {front sign digits back : List Char}

/-- A page size as a text may give it: decimal digits with at most one plus sign before them and blanks around, worth
at least 1 and at most what a machine word holds. -/
def GivesSize (text : String) (n : Nat) : Prop :=
  ∃ front sign digits back, text.toList = front ++ (sign ++ digits) ++ back ∧
    (∀ c ∈ front, c ∈ blanks) ∧ (∀ c ∈ back, c ∈ blanks) ∧ (sign = [] ∨ sign = ['+']) ∧
    digits ≠ [] ∧ (∀ c ∈ digits, '0' ≤ c ∧ c ≤ '9') ∧
    Nat.ofDigits 10 (digits.reverse.map (fun c => c.toNat - '0'.toNat)) = n ∧ 1 ≤ n ∧ n ≤ 2 ^ 64 - 1

/-- The page size that a variable's value stands for, 1000 if it gives none. -/
def SizeFor (value : Option (List UInt8)) (n : Nat) : Prop :=
  (∃ text, value = some (Utf8.encode text) ∧ GivesSize text n) ∨
    (n = 1000 ∧ ∀ text m, value = some (Utf8.encode text) → ¬ GivesSize text m)

/-- The log level that a variable's value stands for. -/
def LevelFor (value : Option (List UInt8)) (level : String) : Prop :=
  (value = some (Utf8.encode level) ∧ level ≠ "") ∨
    (level = "info" ∧ ∀ text, value = some (Utf8.encode text) → text = "")

theorem GivesSize.positive (h : GivesSize text n) : 0 < n := by
  obtain ⟨_, _, _, _, _, _, _, _, _, _, _, hlow, _⟩ := h
  exact hlow

theorem trimBlank_signed (hfront : ∀ c ∈ front, isBlank c = true) (hback : ∀ c ∈ back, isBlank c = true)
    (hsign : sign = [] ∨ sign = ['+']) (hdigits : ∀ c ∈ digits, '0' ≤ c ∧ c ≤ '9') :
    trimBlank (front ++ (sign ++ digits) ++ back) = sign ++ digits := by
  have hblank : ∀ c ∈ sign ++ digits, isBlank c = false := by
    intro c hc
    rcases List.mem_append.mp hc with hc | hc
    · rcases hsign with rfl | rfl
      · cases hc
      · rw [List.mem_singleton.mp hc]
        decide
    · exact not_blank_of_digit (hdigits c hc)
  exact trim_eq hfront hback (fun c hc => hblank c (List.mem_of_mem_head? hc))
    (fun c hc => hblank c (List.mem_of_mem_getLast? hc))

theorem pageSize?_eq_some_iff : pageSize? text = some n ↔ GivesSize text n := by
  have hword : UInt64.size = 2 ^ 64 - 1 + 1 := rfl
  rw [pageSize?, Option.filter_eq_some_iff, Decimal.read?_eq_some_iff, decide_eq_true_eq, hword, Nat.lt_succ_iff]
  simp only [GivesSize, ← isBlank_iff]
  constructor
  · rintro ⟨⟨hne, hdigits, hvalue⟩, hlow, hhigh⟩
    obtain ⟨front, back, htext, hfront, hback⟩ := exists_trim isBlank text.toList
    obtain ⟨sign, hsign, htrim⟩ := Decimal.exists_sign (trimBlank text.toList)
    exact ⟨front, sign, _, back, by rw [← htrim]; exact htext, hfront, hback, hsign, hne, hdigits, hvalue, hlow, hhigh⟩
  · rintro ⟨front, sign, digits, back, htext, hfront, hback, hsign, hne, hdigits, hvalue, hlow, hhigh⟩
    rw [htext, trimBlank_signed hfront hback hsign hdigits, Decimal.unsigned_signed hsign hdigits]
    exact ⟨⟨hne, hdigits, hvalue⟩, hlow, hhigh⟩

example : ["", "0", "+", "-1", "++1", "1 2", "1e3", "18446744073709551616"].map pageSize? = List.replicate 8 none ∧
    ["\u3000+007\t", "0018446744073709551615"].map pageSize? = [some 7, some 18446744073709551615] := by decide

theorem text?_eq_some_iff {env : Environment} {name : String} :
    text? env name = some text ↔ env name = some (Utf8.encode text) := by
  rw [text?, Option.bind_eq_some_iff]
  constructor
  · rintro ⟨bytes, hbytes, htext⟩
    rw [hbytes, Utf8.decode?_eq_some_iff.mp htext]
  · exact fun h => ⟨_, h, Utf8.decode?_encode text⟩

theorem pageSizeOf_eq_iff (env : Environment) (name : String) : pageSizeOf env name = n ↔ SizeFor (env name) n := by
  have hread : ∀ m, (text? env name).bind pageSize? = some m ↔
      ∃ text, env name = some (Utf8.encode text) ∧ GivesSize text m := by
    intro m
    simp only [Option.bind_eq_some_iff, text?_eq_some_iff, pageSize?_eq_some_iff]
  have hnone : (text? env name).bind pageSize? = none ↔
      ∀ text m, env name = some (Utf8.encode text) → ¬ GivesSize text m := by
    simp only [Option.eq_none_iff_forall_ne_some, ne_eq, hread, not_exists, not_and]
    exact forall_comm
  rw [pageSizeOf, SizeFor, Option.getD_eq_iff, hread, hnone, eq_comm (a := n), and_comm (b := 1000 = n)]

theorem SizeFor.positive {value : Option (List UInt8)} (h : SizeFor value n) : 0 < n := by
  rcases h with ⟨text, _, h⟩ | ⟨rfl, _⟩
  · exact h.positive
  · decide

theorem logLevel_eq_iff (env : Environment) (level : String) :
    (ofEnvironment env).logLevel = level ↔ LevelFor (env "LOG_LEVEL") level := by
  have hread : ∀ text, (text? env "LOG_LEVEL").filter (· ≠ "") = some text ↔
      env "LOG_LEVEL" = some (Utf8.encode text) ∧ text ≠ "" := by
    intro text
    rw [Option.filter_eq_some_iff, text?_eq_some_iff, decide_eq_true_eq]
  have hnone : (text? env "LOG_LEVEL").filter (· ≠ "") = none ↔
      ∀ text, env "LOG_LEVEL" = some (Utf8.encode text) → text = "" := by
    simp only [Option.eq_none_iff_forall_ne_some, ne_eq, hread, not_and, not_not]
  rw [ofEnvironment, LevelFor, Option.getD_eq_iff, hread, hnone, eq_comm (a := level) (b := "info"),
    and_comm (b := "info" = level)]

/-- Each setting is what its own variable stands for, whatever the others are set to, and no page size is zero. -/
theorem ofEnvironment_exact (env : Environment) :
    (∀ n, (ofEnvironment env).maxKeys = n ↔ SizeFor (env "S3_DEFAULT_MAX_KEYS") n) ∧
    (∀ n, (ofEnvironment env).maxParts = n ↔ SizeFor (env "S3_DEFAULT_MAX_PARTS") n) ∧
    (∀ n, (ofEnvironment env).maxUploads = n ↔ SizeFor (env "S3_DEFAULT_MAX_UPLOADS") n) ∧
    (∀ n, (ofEnvironment env).maxBuckets = n ↔ SizeFor (env "S3_DEFAULT_MAX_BUCKETS") n) ∧
    (∀ level, (ofEnvironment env).logLevel = level ↔ LevelFor (env "LOG_LEVEL") level) ∧
    0 < (ofEnvironment env).maxKeys ∧ 0 < (ofEnvironment env).maxParts ∧
    0 < (ofEnvironment env).maxUploads ∧ 0 < (ofEnvironment env).maxBuckets := by
  have hsize : ∀ name n, pageSizeOf env name = n ↔ SizeFor (env name) n := fun name n => pageSizeOf_eq_iff env name
  have hpositive : ∀ name, 0 < pageSizeOf env name := fun name => ((hsize name _).mp rfl).positive
  exact ⟨hsize _, hsize _, hsize _, hsize _, logLevel_eq_iff env, hpositive _, hpositive _, hpositive _, hpositive _⟩

def spelled : Environment
  | "S3_DEFAULT_MAX_KEYS" => some (Utf8.encode "\u3000+007\t")
  | "S3_DEFAULT_MAX_PARTS" => some (Utf8.encode "0018446744073709551615")
  | "S3_DEFAULT_MAX_UPLOADS" => some (Utf8.encode "18446744073709551616")
  | "S3_DEFAULT_MAX_BUCKETS" => some [255]
  | "LOG_LEVEL" => some (Utf8.encode "debug")
  | _ => none

theorem ofEnvironment_spelled :
    ofEnvironment spelled = ⟨7, 18446744073709551615, 1000, 1000, "debug"⟩ ∧
    SizeFor (some (Utf8.encode "\u3000+007\t")) 7 ∧
    SizeFor (some (Utf8.encode "0018446744073709551615")) 18446744073709551615 ∧
    SizeFor (some (Utf8.encode "18446744073709551616")) 1000 ∧ SizeFor (some [255]) 1000 ∧
    LevelFor (some (Utf8.encode "debug")) "debug" := by
  have hread : ofEnvironment spelled = ⟨7, 18446744073709551615, 1000, 1000, "debug"⟩ := by decide
  obtain ⟨hkeys, hparts, huploads, hbuckets, hlevel, _⟩ := ofEnvironment_exact spelled
  rw [hread] at hkeys hparts huploads hbuckets hlevel
  exact ⟨hread, (hkeys _).mp rfl, (hparts _).mp rfl, (huploads _).mp rfl, (hbuckets _).mp rfl, (hlevel _).mp rfl⟩

end BucketStore.Settings
