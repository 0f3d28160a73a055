import BucketStore.LogFilter.Directive
import BucketStore.Proofs.Blank
import BucketStore.Proofs.Decimal

namespace BucketStore.LogFilter

open Text

variable {cs rest sign digits : List Char}

def Level (cs : List Char) : Prop :=
  (∃ name ∈ levelNames, cs.map Char.toLower = name.toList) ∨
    ∃ sign digits, cs = sign ++ digits ∧ (sign = [] ∨ sign = ['+']) ∧ digits ≠ [] ∧
      (∀ c ∈ digits, '0' ≤ c ∧ c ≤ '9') ∧ Nat.ofDigits 10 (digits.reverse.map Decimal.digitValue) ≤ 5

theorem isLevel_iff : isLevel cs = true ↔ Level cs := by
  rw [isLevel, Bool.or_eq_true, or_comm, Level, List.any_eq_true, Option.any_eq_true]
  simp only [decide_eq_true_eq, Decimal.read?_eq_some_iff]
  refine or_congr (by simp only [eq_comm]) ?_
  constructor
  · rintro ⟨n, ⟨hne, hdigits, rfl⟩, hn⟩
    obtain ⟨sign, hsign, hcs⟩ := Decimal.exists_sign cs
    exact ⟨sign, _, hcs, hsign, hne, hdigits, hn⟩
  · rintro ⟨sign, digits, rfl, hsign, hne, hdigits, hn⟩
    rw [Decimal.unsigned_signed hsign hdigits]
    exact ⟨_, ⟨hne, hdigits, rfl⟩, hn⟩

theorem Level.not_mem_equals (h : Level cs) : '=' ∉ cs := by
  intro hmem
  rcases h with ⟨name, hname, hcs⟩ | ⟨sign, digits, rfl, hsign, _, hdigits, _⟩
  · have hlower : '=' ∈ name.toList := hcs ▸ List.mem_map.mpr ⟨'=', hmem, by decide⟩
    clear hcs
    revert name
    decide
  · rcases List.mem_append.mp hmem with hmem | hmem
    · rcases hsign with rfl | rfl <;> revert hmem <;> decide
    · exact absurd (hdigits '=' hmem) (by decide)

def Sign (sign : List Char) : Prop := sign = [] ∨ sign = ['+'] ∨ sign = ['-']

def Digits (cs : List Char) : Prop := ∀ c ∈ cs, c.isDigit = true

inductive Exponent : List Char → Prop
  | none : Exponent []
  | power (e : Char) {sign digits : List Char} (he : e = 'e' ∨ e = 'E') (hsign : Sign sign) (hne : digits ≠ [])
      (hdigits : Digits digits) : Exponent (e :: (sign ++ digits))

/-- Digits on one side of a point at least. Without any behind it the point may be left out. -/
inductive Fraction : List Char → Prop
  | whole {whole exponent : List Char} (hne : whole ≠ []) (hwhole : Digits whole) (he : Exponent exponent) :
      Fraction (whole ++ exponent)
  | pointed {whole part exponent : List Char} (hne : whole ≠ [] ∨ part ≠ []) (hwhole : Digits whole)
      (hpart : Digits part) (he : Exponent exponent) : Fraction (whole ++ '.' :: (part ++ exponent))

inductive Number : List Char → Prop
  | fraction {sign cs : List Char} (hsign : Sign sign) (h : Fraction cs) : Number (sign ++ cs)
  | named {sign cs : List Char} (name : String) (hsign : Sign sign) (hname : name ∈ ["inf", "infinity", "nan"])
      (h : cs.map Char.toLower = name.toList) : Number (sign ++ cs)

theorem exists_dropSign (cs : List Char) : ∃ sign, Sign sign ∧ cs = sign ++ dropSign cs := by
  rw [dropSign.eq_def]
  split
  · exact ⟨['+'], .inr (.inl rfl), rfl⟩
  · exact ⟨['-'], .inr (.inr rfl), rfl⟩
  · exact ⟨[], .inl rfl, rfl⟩

theorem dropSign_signed (hsign : Sign sign) (hhead : ∀ c ∈ rest.head?, c ≠ '+' ∧ c ≠ '-') :
    dropSign (sign ++ rest) = rest := by
  rcases hsign with rfl | rfl | rfl
  · rw [List.nil_append, dropSign.eq_def]
    split
    · exact absurd rfl (hhead '+' rfl).1
    · exact absurd rfl (hhead '-' rfl).2
    · rfl
  · rfl
  · rfl

theorem Digits.head_ne (h : Digits digits) : ∀ c ∈ digits.head?, c ≠ '+' ∧ c ≠ '-' := by
  intro c hc
  have hdigit := h c (List.mem_of_mem_head? hc)
  constructor <;> rintro rfl <;> revert hdigit <;> decide

theorem isDigits_iff : (Decimal.read? cs).isSome = true ↔ cs ≠ [] ∧ Digits cs := by
  rw [Decimal.read?, Option.isSome_ite, List.all_eq_true, Digits]

theorem isExponent_iff : isExponent cs = true ↔ Exponent cs := by
  cases cs with
  | nil => exact ⟨fun _ => .none, fun _ => rfl⟩
  | cons c exponent =>
      simp only [isExponent, Bool.and_eq_true, Bool.or_eq_true, decide_eq_true_eq, isDigits_iff]
      constructor
      · rintro ⟨hc, hne, hdigits⟩
        obtain ⟨sign, hsign, hexponent⟩ := exists_dropSign exponent
        rw [hexponent]
        exact .power c hc hsign hne hdigits
      · rintro (_ | ⟨_, hc, hsign, hne, hdigits⟩)
        rw [dropSign_signed hsign hdigits.head_ne]
        exact ⟨hc, hne, hdigits⟩

theorem Exponent.head_not_digit (h : Exponent cs) : ∀ c ∈ cs.head?, c.isDigit = false ∧ c ≠ '.' := by
  rcases h with _ | ⟨e, rfl | rfl, _, _, _⟩ <;> simp

theorem isDecimal_iff : isDecimal cs = true ↔ Fraction cs := by
  constructor
  · intro h
    have hcs : cs.takeWhile Char.isDigit ++ cs.dropWhile Char.isDigit = cs := List.takeWhile_append_dropWhile
    have hwhole : Digits (cs.takeWhile Char.isDigit) := fun c hc => List.mem_takeWhile_imp hc
    rw [isDecimal] at h
    split at h
    · rename_i rest hrest
      have hpart : rest.takeWhile Char.isDigit ++ rest.dropWhile Char.isDigit = rest := List.takeWhile_append_dropWhile
      simp only [Bool.and_eq_true, Bool.or_eq_true, decide_eq_true_eq, isExponent_iff] at h
      rw [← hcs, hrest, ← hpart]
      exact .pointed h.1 hwhole (fun c hc => List.mem_takeWhile_imp hc) h.2
    · simp only [Bool.and_eq_true, decide_eq_true_eq, isExponent_iff] at h
      rw [← hcs]
      exact .whole h.1 hwhole h.2
  · rintro (⟨hne, hwhole, he⟩ | ⟨hne, hwhole, hpart, he⟩)
    · obtain ⟨htake, hdrop⟩ := span_append _ hwhole (fun c hc => (he.head_not_digit c hc).1)
      rw [isDecimal, htake, hdrop]
      split
      · exact absurd rfl (he.head_not_digit '.' rfl).2
      · simp [hne, isExponent_iff, he]
    · obtain ⟨htake, hdrop⟩ := span_append _ hpart (fun c hc => (he.head_not_digit c hc).1)
      obtain ⟨htake', hdrop'⟩ := span_append ('.' :: (_ ++ _)) hwhole (fun c hc => by cases hc; decide)
      rw [isDecimal, htake', hdrop']
      simp [htake, hdrop, hne, isExponent_iff, he]

theorem Fraction.head_ne (h : Fraction cs) : ∀ c ∈ cs.head?, c ≠ '+' ∧ c ≠ '-' := by
  rcases h with @⟨whole, _, hne, hwhole, _⟩ | @⟨whole, _, _, _, hwhole, _, _⟩
  · cases whole with
    | nil => exact absurd rfl hne
    | cons c whole => exact hwhole.head_ne
  · cases whole with
    | nil => simp
    | cons c whole => exact hwhole.head_ne

theorem named_head_ne {name : String} (hname : name ∈ ["inf", "infinity", "nan"])
    (h : cs.map Char.toLower = name.toList) : ∀ c ∈ cs.head?, c ≠ '+' ∧ c ≠ '-' := by
  intro c hc
  have hlower : name.toList.head? = some c.toLower := by
    rw [← h, List.head?_map, hc]
    rfl
  constructor <;> rintro rfl <;> clear h <;> revert name <;> decide

theorem isNumber_iff : isNumber cs = true ↔ Number cs := by
  rw [isNumber, Bool.or_eq_true, isDecimal_iff, List.any_eq_true]
  simp only [decide_eq_true_eq]
  constructor
  · obtain ⟨sign, hsign, hcs⟩ := exists_dropSign cs
    generalize dropSign cs = rest at hcs ⊢
    rw [hcs]
    rintro (h | ⟨name, hname, h⟩)
    · exact .fraction hsign h
    · exact .named name hsign hname h.symm
  · rintro (⟨hsign, h⟩ | ⟨name, hsign, hname, h⟩)
    · rw [dropSign_signed hsign h.head_ne]
      exact .inl h
    · rw [dropSign_signed hsign (named_head_ne hname h)]
      exact .inr ⟨name, hname, h.symm⟩

/-- A field of a span, with or without the value that it has to have. What comes behind a second equals sign
does not count. -/
inductive Field : List Char → Prop
  | name {cs : List Char} (hne : cs ≠ []) (hname : '=' ∉ cs) : Field cs
  | value {name value rest : List Char} (hname : '=' ∉ name) (hvalue : '=' ∉ value)
      (hrest : ∀ c ∈ rest.head?, c = '=') (h : Number value ∨ Pattern.fault? value = none) :
      Field (name ++ '=' :: (value ++ rest))

theorem span_before {stop : Char} (rest : List Char) (hfront : stop ∉ front) (hrest : ∀ c ∈ rest.head?, c = stop) :
    (front ++ rest).takeWhile (· ≠ stop) = front ∧ (front ++ rest).dropWhile (· ≠ stop) = rest := by
  refine span_append rest (fun c hc => ?_) (fun c hc => ?_)
  · exact decide_eq_true (fun heq => hfront (heq ▸ hc))
  · exact decide_eq_false (fun hne => hne (hrest c hc))

theorem valueFault?_eq_none : (if isNumber cs then none else (Pattern.fault? cs).map Fault.value) = none ↔
    Number cs ∨ Pattern.fault? cs = none := by
  rw [← isNumber_iff]
  cases isNumber cs <;> simp

theorem fieldFault?_eq_none_iff : fieldFault? cs = none ↔ Field cs := by
  constructor
  · intro h
    have hcs : cs.takeWhile (· ≠ '=') ++ cs.dropWhile (· ≠ '=') = cs := List.takeWhile_append_dropWhile
    have hname : '=' ∉ cs.takeWhile (· ≠ '=') := fun hmem => by simpa using List.mem_takeWhile_imp hmem
    rw [fieldFault?] at h
    split at h
    · cases h
    · rename_i hne
      split at h
      · rename_i hdrop
        rw [hdrop, List.append_nil] at hcs
        exact .name hne (hcs ▸ hname)
      · rename_i c rest hdrop
        obtain rfl : c = '=' := by simpa using head_dropWhile (· ≠ '=') cs c (by rw [hdrop]; rfl)
        have hrest : rest.takeWhile (· ≠ '=') ++ rest.dropWhile (· ≠ '=') = rest := List.takeWhile_append_dropWhile
        rw [hdrop, ← hrest] at hcs
        rw [← hcs]
        exact .value hname (fun hmem => by simpa using List.mem_takeWhile_imp hmem)
          (fun c hc => by simpa using head_dropWhile (· ≠ '=') rest c hc) (valueFault?_eq_none.mp h)
  · rintro (⟨hne, hname⟩ | ⟨hname, hvalue, hrest, h⟩)
    · have hdrop := (span_before [] hname nofun).2
      rw [List.append_nil] at hdrop
      rw [fieldFault?, if_neg hne, hdrop]
    · rw [fieldFault?, if_neg (by simp), (span_before _ hname (by simp)).2]
      simp only [(span_before _ hvalue hrest).1]
      exact valueFault?_eq_none.mpr h

end BucketStore.LogFilter
