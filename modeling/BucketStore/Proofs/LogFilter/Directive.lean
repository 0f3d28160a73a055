import BucketStore.Proofs.LogFilter.Field
import BucketStore.Proofs.Utf8

namespace BucketStore

theorem Text.isAlphanumeric_of_ascii {c : Char} (h : c.toNat < 128) : isAlphanumeric c = c.isAlphanum := by
  have hlow : ∀ ranges : List (Nat × Nat), ranges.any (fun r => r.1 ≤ c.toNat && c.toNat ≤ r.2) =
      (ranges.filter (·.1 < 128)).any (fun r => r.1 ≤ c.toNat && c.toNat ≤ r.2) := by
    intro ranges
    rw [List.any_filter]
    refine congrArg ranges.any (funext fun r => ?_)
    by_cases hr : r.1 < 128
    · simp [hr]
    · simp [hr, show ¬ r.1 ≤ c.toNat by omega]
  have halphabetic : alphabeticRanges.filter (·.1 < 128) = [(0x41, 0x5a), (0x61, 0x7a)] := by decide +kernel
  have hnumber : numberRanges.filter (·.1 < 128) = [(0x30, 0x39)] := by decide +kernel
  rw [isAlphanumeric, isAlphabetic, hlow alphabeticRanges, halphabetic, hlow numberRanges, hnumber]
  exact forall_ascii (P := fun c => ([(0x41, 0x5a), (0x61, 0x7a)].any (fun r => r.1 ≤ c.toNat && c.toNat ≤ r.2) ||
    [(0x30, 0x39)].any (fun r => r.1 ≤ c.toNat && c.toNat ≤ r.2)) = c.isAlphanum) (by decide +kernel) h

theorem Text.not_alphanumeric_of_blank {c : Char} (h : c ∈ blanks) : isAlphanumeric c = false := by
  have htables : blanks.all (fun c => !isAlphanumeric c) = true := by decide +kernel
  simpa using List.all_eq_true.mp htables c h

namespace LogFilter

open Text

variable {c : Char} {cs front rest : List Char}

/-- What a directive may end with: blanks, or an equals sign and a level or nothing. -/
inductive Ending : List Char → Prop
  | blank {cs : List Char} (h : ∀ c ∈ cs, isBlank c = true) : Ending cs
  | noLevel : Ending ['=']
  | level {cs : List Char} (h : Level cs) : Ending ('=' :: cs)

inductive Braced : List Char → Prop
  | field {field tail : List Char} (hfield : '\x7d' ∉ field) (h : Field field) (hend : Ending tail) :
      Braced (field ++ '\x7d' :: ']' :: tail)

inductive Span : List Char → Prop
  | name {name tail : List Char} (hname : ∀ c ∈ name, c ∉ [']', '\x7b']) (h : Ending tail) : Span (name ++ ']' :: tail)
  | field {name cs : List Char} (hname : ∀ c ∈ name, c ∉ [']', '\x7b']) (h : Braced cs) : Span (name ++ '\x7b' :: cs)

theorem append_cons_inj {stops front' rest' : List Char} {d : Char} (hfront : ∀ c ∈ front, c ∉ stops)
    (hfront' : ∀ c ∈ front', c ∉ stops) (hc : c ∈ stops) (hd : d ∈ stops)
    (h : front ++ c :: rest = front' ++ d :: rest') : front = front' ∧ c = d ∧ rest = rest' := by
  obtain ⟨htake, hdrop⟩ := span_append (p := (· ∉ stops)) (c :: rest) (by simpa using hfront) (by simpa using hc)
  obtain ⟨htake', hdrop'⟩ := span_append (p := (· ∉ stops)) (d :: rest') (by simpa using hfront')
    (by simpa using hd)
  rw [h, htake'] at htake
  rw [h, hdrop'] at hdrop
  obtain ⟨rfl, rfl⟩ := List.cons.inj hdrop
  exact ⟨htake.symm, rfl, rfl⟩

theorem braced_iff {field : List Char} (hfield : '\x7d' ∉ field) :
    Braced (field ++ '\x7d' :: cs) ↔ Field field ∧ ∃ tail, cs = ']' :: tail ∧ Ending tail := by
  constructor
  · generalize heq : field ++ '\x7d' :: cs = whole
    rintro @⟨field', tail, hfield', h, hend⟩
    have hfree : ∀ l : List Char, '\x7d' ∉ l → ∀ c ∈ l, c ∉ ['\x7d'] :=
      fun l hl c hc hmem => hl (List.mem_singleton.mp hmem ▸ hc)
    obtain ⟨rfl, _, rfl⟩ := append_cons_inj (hfree _ hfield) (hfree _ hfield') (List.mem_singleton_self _)
      (List.mem_singleton_self _) heq
    exact ⟨h, tail, rfl, hend⟩
  · rintro ⟨h, tail, rfl, hend⟩
    exact .field hfield h hend

theorem Braced.mem (h : Braced cs) : '\x7d' ∈ cs := by
  cases h
  simp

theorem Span.exists_mem (h : Span cs) : ∃ c ∈ cs, c ∈ [']', '\x7b'] := by
  cases h
  · exact ⟨']', by simp, by simp⟩
  · exact ⟨'\x7b', by simp, by simp⟩

theorem span_iff {name : List Char} (hname : ∀ c ∈ name, c ∉ [']', '\x7b']) (hc : c ∈ [']', '\x7b']) :
    Span (name ++ c :: cs) ↔ if c = ']' then Ending cs else Braced cs := by
  constructor
  · generalize heq : name ++ c :: cs = whole
    rintro (@⟨name', tail, hname', h⟩ | @⟨name', cs', hname', h⟩)
    · obtain ⟨_, rfl, rfl⟩ := append_cons_inj hname hname' hc (by simp) heq
      exact h
    · obtain ⟨_, rfl, rfl⟩ := append_cons_inj hname hname' hc (by simp) heq
      exact h
  · intro h
    simp only [List.mem_cons, List.not_mem_nil, or_false] at hc
    rcases hc with rfl | rfl
    · exact .name hname h
    · exact .field hname h

/-- A directive that does not start with a blank: a target, a span or both. A level alone is read as a target. -/
inductive Directive : List Char → Prop
  | target {c : Char} {target tail : List Char} (hc : startsTarget c = true) (htarget : ∀ c ∈ target, c ∉ ['=', '['])
      (h : Ending tail) : Directive (c :: (target ++ tail))
  | span {cs : List Char} (h : Span cs) : Directive ('[' :: cs)
  | both {c : Char} {target cs : List Char} (hc : startsTarget c = true) (htarget : ∀ c ∈ target, c ∉ ['=', '['])
      (h : Span cs) : Directive (c :: (target ++ '[' :: cs))

theorem Ending.blank_or_equals (h : Ending cs) : (∀ c ∈ cs, isBlank c = true) ∨ ∃ level, cs = '=' :: level := by
  cases h with
  | blank h => exact .inl h
  | noLevel => exact .inr ⟨[], rfl⟩
  | level => exact .inr ⟨_, rfl⟩

theorem startsTarget_of_ascii (h : c.toNat < 128) :
    startsTarget c = true ↔ c.isAlphanum = true ∨ c = '-' ∨ c = ':' ∨ c = '_' := by
  simp only [startsTarget, isAlphanumeric_of_ascii h, Bool.or_eq_true, decide_eq_true_eq]
  tauto

theorem not_startsTarget_bracket : startsTarget '[' = false := by
  simpa using (startsTarget_of_ascii (c := '[') (by decide)).not.mpr (by decide)

theorem not_startsTarget_equals : startsTarget '=' = false := by
  simpa using (startsTarget_of_ascii (c := '=') (by decide)).not.mpr (by decide)

theorem not_mem_of_startsTarget (hc : startsTarget c = true) : c ∉ ['=', '['] := by
  intro hmem
  simp only [List.mem_cons, List.not_mem_nil, or_false] at hmem
  rcases hmem with rfl | rfl
  · rw [not_startsTarget_equals] at hc
    cases hc
  · rw [not_startsTarget_bracket] at hc
    cases hc

theorem exists_stop (stops text : List Char) : ∃ front rest, text = front ++ rest ∧ (∀ c ∈ front, c ∉ stops) ∧
    ∀ c ∈ rest.head?, c ∈ stops := by
  refine ⟨text.takeWhile (· ∉ stops), text.dropWhile (· ∉ stops), List.takeWhile_append_dropWhile.symm,
    fun c hc => ?_, fun c hc => ?_⟩
  · simpa using List.mem_takeWhile_imp hc
  · simpa using head_dropWhile _ text c hc

theorem takeWhile_stop {stops : List Char} (hfront : ∀ c ∈ front, c ∉ stops) (hrest : ∀ c ∈ rest.head?, c ∈ stops) :
    (front ++ rest).takeWhile (· ∉ stops) = front :=
  (span_append rest (fun c hc => decide_eq_true (hfront c hc))
    (fun c hc => decide_eq_false (not_not_intro (hrest c hc)))).1

theorem Directive.starts (h : Directive (c :: cs)) : c = '[' ∨ startsTarget c = true := by
  generalize heq : c :: cs = whole at h
  cases h with
  | span => exact .inl (List.cons.inj heq).1
  | target hc | both hc => exact .inr ((List.cons.inj heq).1 ▸ hc)

theorem directive_span_iff : Directive ('[' :: cs) ↔ Span cs := by
  refine ⟨fun h => ?_, .span⟩
  cases h with
  | span h => exact h
  | target hc | both hc =>
      rw [not_startsTarget_bracket] at hc
      cases hc

theorem directive_iff {target : List Char} {d : Char} (hc : startsTarget c = true)
    (htarget : ∀ c ∈ target, c ∉ ['=', '[']) (hd : d ∈ ['=', '[']) :
    Directive (c :: (target ++ d :: cs)) ↔ if d = '[' then Span cs else Ending ('=' :: cs) := by
  constructor
  · generalize heq : c :: (target ++ d :: cs) = whole
    rintro (@⟨_, target', tail, _, htarget', h⟩ | h | @⟨_, target', cs', _, htarget', h⟩)
    · obtain ⟨_, heq⟩ := List.cons.inj heq
      rcases h.blank_or_equals with hblank | ⟨level, rfl⟩
      · have hmem : d ∈ target' ++ tail := heq ▸ List.mem_append_right target List.mem_cons_self
        rcases List.mem_append.mp hmem with hmem | hmem
        · exact absurd hd (htarget' d hmem)
        · have hnot := hblank d hmem
          simp only [List.mem_cons, List.not_mem_nil, or_false] at hd
          rcases hd with rfl | rfl <;> exact absurd hnot (by decide)
      · obtain ⟨_, rfl, rfl⟩ := append_cons_inj htarget htarget' hd List.mem_cons_self heq
        exact h
    · obtain ⟨rfl, _⟩ := List.cons.inj heq
      rw [not_startsTarget_bracket] at hc
      cases hc
    · obtain ⟨_, heq⟩ := List.cons.inj heq
      obtain ⟨_, rfl, rfl⟩ := append_cons_inj htarget htarget' hd (by simp) heq
      exact h
  · intro h
    simp only [List.mem_cons, List.not_mem_nil, or_false] at hd
    rcases hd with rfl | rfl
    · exact .target hc htarget h
    · exact .both hc htarget h

namespace Place

variable {back text stops : List Char}

/-- The place in a directive where `text` goes on and only `back` is left out of it. -/
def before (back text : List Char) : Place := ⟨text, text ++ back⟩

theorem text_before (back text : List Char) : (before back text).text = text := rfl

theorem drop_before (back text : List Char) (n : Nat) : (before back text).drop n = before back (text.drop n) := by
  have hsplit : text ++ back = text.take n ++ (text.drop n ++ back) := by
    rw [← List.append_assoc, List.take_append_drop]
  rw [drop, before, hsplit, Utf8.drop_size]
  rfl

theorem skipTo_eq (hfront : ∀ c ∈ front, c ∉ stops) (hrest : ∀ c ∈ rest.head?, c ∈ stops) (written : List Char) :
    (⟨front ++ rest, written⟩ : Place).skipTo stops = ⟨rest, Utf8.drop (Utf8.size front) written⟩ := by
  rw [skipTo, takeWhile_stop hfront hrest, drop]
  simp only [List.take_left, List.drop_left]

theorem skipTo_before (hfront : ∀ c ∈ front, c ∉ stops) (hrest : ∀ c ∈ rest.head?, c ∈ stops) :
    (before back (front ++ rest)).skipTo stops = before back rest := by
  rw [before, skipTo_eq hfront hrest, List.append_assoc, Utf8.drop_size]
  rfl

theorem upTo_before (hfront : ∀ c ∈ front, c ∉ stops) (hrest : ∀ c ∈ rest.head?, c ∈ stops) :
    (before back (front ++ rest)).upTo stops = front := by
  rw [upTo, text_before, takeWhile_stop hfront hrest, before, List.append_assoc, Utf8.take_size]

theorem levelFault?_of_mem {p : Place} (h : '=' ∈ p.written) : p.levelFault? = some .level := by
  rw [levelFault?, if_neg]
  intro hlevel
  rcases Bool.or_eq_true_iff.mp hlevel with hnil | hlevel
  · rw [of_decide_eq_true hnil] at h
    cases h
  · exact (isLevel_iff.mp hlevel).not_mem_equals h

theorem levelFault?_eq_none_iff {p : Place} : p.levelFault? = none ↔ Ending ('=' :: p.written) := by
  have hread : p.levelFault? = none ↔ p.written = [] ∨ Level p.written := by
    simp only [levelFault?, ← isLevel_iff, ite_eq_left_iff, reduceCtorEq, imp_false, not_not, Bool.or_eq_true,
      decide_eq_true_eq]
  rw [hread]
  constructor
  · rintro (hnil | h)
    · rw [hnil]
      exact .noLevel
    · exact .level h
  · generalize heq : '=' :: p.written = cs
    intro h
    cases h with
    | blank h =>
        subst heq
        exact absurd (h '=' List.mem_cons_self) (by decide)
    | noLevel => exact .inl (List.cons.inj heq).2
    | level h => exact .inr ((List.cons.inj heq).2 ▸ h)

theorem endFault?_before (hback : ∀ c ∈ back, isBlank c = true) (hlast : ∀ c ∈ text.getLast?, isBlank c = false) :
    (before back text).endFault? = none ↔ Ending (text ++ back) := by
  cases text with
  | nil => exact ⟨fun _ => .blank hback, fun _ => rfl⟩
  | cons c text =>
      by_cases hc : c = '='
      · subst hc
        have hend : (before back ('=' :: text)).endFault? = ((before back ('=' :: text)).drop 1).levelFault? := rfl
        rw [hend, drop_before, levelFault?_eq_none_iff]
        rfl
      · have hend : (before back (c :: text)).endFault? = some .shape := by
          rw [endFault?]
          split
          · rename_i h
            cases h
          · rename_i h
            exact absurd (Option.some.inj h) hc
          · rfl
        rw [hend]
        refine ⟨nofun, fun h => ?_⟩
        rw [List.cons_append] at h
        generalize heq : c :: (text ++ back) = cs at h
        cases h with
        | blank h =>
            subst heq
            have hmem : (c :: text).getLast (List.cons_ne_nil c text) ∈ c :: text := List.getLast_mem _
            have hnot := hlast _ (List.getLast?_eq_some_getLast (List.cons_ne_nil c text))
            rw [h _ (List.mem_append_left back hmem)] at hnot
            cases hnot
        | noLevel => exact absurd (List.cons.inj heq).1 hc
        | level h => exact absurd (List.cons.inj heq).1 hc

theorem last_of_suffix {rest : List Char} (hlast : ∀ c ∈ text.getLast?, isBlank c = false) (h : rest <:+ text) :
    ∀ c ∈ rest.getLast?, isBlank c = false := by
  obtain ⟨front, rfl⟩ := h
  intro c hc
  refine hlast c ?_
  rw [List.getLast?_append, hc]
  rfl

theorem bracedFault?_before (hback : ∀ c ∈ back, isBlank c = true)
    (hlast : ∀ c ∈ text.getLast?, isBlank c = false) :
    (before back text).bracedFault? = none ↔ Braced (text ++ back) := by
  obtain ⟨field, rest, rfl, hstops, hhead⟩ := exists_stop ['\x7d'] text
  have hfield : '\x7d' ∉ field := fun hmem => hstops _ hmem (List.mem_singleton_self _)
  rw [bracedFault?, skipTo_before hstops hhead, upTo_before hstops hhead]
  cases rest with
  | nil =>
      refine ⟨nofun, fun h => ?_⟩
      rcases List.mem_append.mp h.mem with hmem | hmem
      · rw [List.append_nil] at hmem
        exact absurd hmem hfield
      · exact absurd (hback _ hmem) (by decide)
  | cons c rest =>
      obtain rfl : c = '\x7d' := List.mem_singleton.mp (hhead c rfl)
      rw [List.append_assoc, List.cons_append, braced_iff hfield, ← fieldFault?_eq_none_iff, drop_before, drop_before,
        text_before, text_before, if_neg (List.cons_ne_nil _ rest), Option.or_eq_none_iff]
      refine and_congr_right' ?_
      rw [List.drop_succ_cons, List.drop_zero, List.drop_succ_cons]
      cases rest with
      | nil =>
          refine ⟨nofun, fun ⟨tail, htail, _⟩ => ?_⟩
          rw [List.nil_append] at htail
          exact absurd (hback ']' (htail ▸ List.mem_cons_self)) (by decide)
      | cons d rest =>
          by_cases hd : d = ']'
          · subst hd
            have hrest : rest <:+ field ++ '\x7d' :: ']' :: rest := ⟨field ++ ['\x7d', ']'], by simp⟩
            have hend := endFault?_before hback (last_of_suffix hlast hrest)
            simp [hend]
          · simp [hd]

theorem spanFault?_before (hback : ∀ c ∈ back, isBlank c = true)
    (hlast : ∀ c ∈ text.getLast?, isBlank c = false) :
    (before back text).spanFault? = none ↔ Span (text ++ back) := by
  obtain ⟨name, rest, rfl, hname, hhead⟩ := exists_stop [']', '\x7b'] text
  rw [spanFault?, skipTo_before hname hhead]
  cases rest with
  | nil =>
      refine ⟨nofun, fun h => ?_⟩
      obtain ⟨c, hc, hstop⟩ := h.exists_mem
      rcases List.mem_append.mp hc with hc | hc
      · exact absurd hstop (hname c (by simpa using hc))
      · have hblank := hback c hc
        simp only [List.mem_cons, List.not_mem_nil, or_false] at hstop
        rcases hstop with rfl | rfl <;> exact absurd hblank (by decide)
  | cons c rest =>
      have hc : c ∈ [']', '\x7b'] := hhead c rfl
      have hrest := last_of_suffix hlast (show rest <:+ _ from ⟨name ++ [c], by simp⟩)
      rw [List.append_assoc, List.cons_append, span_iff hname hc, drop_before, text_before]
      by_cases hbracket : c = ']'
      · subst hbracket
        exact endFault?_before hback hrest
      · rw [if_neg hbracket, if_neg (by simpa using hbracket)]
        exact bracedFault?_before hback hrest

theorem directiveFault?_target {p : Place} {c : Char} {text : List Char} (hp : p.text = c :: text)
    (hc : startsTarget c = true) :
    p.directiveFault? = if (p.skipTo ['=', '[']).text.head? = some '[' then
      ((p.skipTo ['=', '[']).drop 1).spanFault? else (p.skipTo ['=', '[']).endFault? := by
  rw [directiveFault?]
  split
  · rename_i h
    rw [hp] at h
    cases h
  · rename_i h
    obtain ⟨rfl, _⟩ := List.cons.inj (hp.symm.trans h)
    rw [not_startsTarget_bracket] at hc
    cases hc
  · rename_i h
    obtain ⟨rfl, _⟩ := List.cons.inj (hp.symm.trans h)
    rw [hc]
    rfl

theorem directiveFault?_target_iff (hback : ∀ c ∈ back, isBlank c = true)
    (hlast : ∀ c ∈ text.getLast?, isBlank c = false) (hc : startsTarget c = true) :
    (before back (c :: text)).directiveFault? = none ↔ Directive (c :: (text ++ back)) := by
  obtain ⟨target, rest, rfl, htarget, hhead⟩ := exists_stop ['=', '['] text
  have hskip : (before back (c :: (target ++ rest))).skipTo ['=', '['] = before back rest :=
    skipTo_before (List.forall_mem_cons.mpr ⟨not_mem_of_startsTarget hc, htarget⟩) hhead
  rw [directiveFault?_target rfl hc, hskip]
  cases rest with
  | nil =>
      refine ⟨fun _ => ?_, fun _ => rfl⟩
      rw [List.append_nil]
      exact .target hc htarget (.blank hback)
  | cons d rest =>
      have hd : d ∈ ['=', '['] := hhead d rfl
      rw [List.append_assoc, List.cons_append, directive_iff hc htarget hd]
      simp only [text_before, List.head?_cons, Option.some_inj]
      by_cases hspan : d = '['
      · subst hspan
        rw [if_pos rfl, if_pos rfl, drop_before]
        exact spanFault?_before hback (last_of_suffix hlast ⟨target ++ ['['], by simp⟩)
      · obtain rfl : d = '=' := by simpa [hspan] using hd
        rw [if_neg hspan, if_neg hspan]
        exact endFault?_before hback (last_of_suffix hlast ⟨target, rfl⟩)

theorem directiveFault?_before (hback : ∀ c ∈ back, isBlank c = true) (hlast : ∀ c ∈ text.getLast?, isBlank c = false)
    (hfirst : ∀ c ∈ (text ++ back).head?, isBlank c = false) :
    (before back text).directiveFault? = none ↔ Directive (text ++ back) := by
  cases text with
  | nil =>
      refine ⟨nofun, fun h => ?_⟩
      cases back with
      | nil => cases h
      | cons b back => exact absurd (hback b List.mem_cons_self) (by simp [hfirst b rfl])
  | cons c text =>
      have hrest := last_of_suffix hlast (show text <:+ _ from ⟨[c], rfl⟩)
      by_cases hbracket : c = '['
      · subst hbracket
        have hspan : (before back ('[' :: text)).directiveFault? =
            ((before back ('[' :: text)).drop 1).spanFault? := rfl
        rw [hspan, drop_before, List.cons_append, directive_span_iff]
        exact spanFault?_before hback hrest
      · cases hc : startsTarget c with
        | false =>
            have hshape : (before back (c :: text)).directiveFault? = some .shape := by
              simp [directiveFault?, before, hc]
            rw [hshape]
            refine ⟨nofun, fun h => ?_⟩
            rcases h.starts with hstart | hstart
            · exact absurd hstart hbracket
            · rw [hc] at hstart
              cases hstart
        | true => exact directiveFault?_target_iff hback hrest hc

end Place

theorem fault?_eq_none_iff (h : ∀ c ∈ cs.head?, isBlank c = false) : fault? cs = none ↔ Directive cs := by
  obtain ⟨front, back, hcs, hfront, hback⟩ := exists_trim isBlank cs
  obtain rfl : front = [] := by
    cases front with
    | nil => rfl
    | cons c front =>
        rw [hcs] at h
        exact absurd (hfront c List.mem_cons_self) (by simp [h c rfl])
  have htext : trimBlank cs ++ back = cs := hcs.symm
  have hplace : fault? cs = (Place.before back (trimBlank cs)).directiveFault? := by
    rw [fault?, Place.before, htext]
  have hlast : ∀ c ∈ (trimBlank cs).getLast?, isBlank c = false := getLast_trim isBlank cs
  rw [hplace, Place.directiveFault?_before hback hlast (htext.symm ▸ h), htext]

theorem not_blank_of_startsTarget (hc : startsTarget c = true) : isBlank c = false := by
  by_contra hblank
  rw [Bool.not_eq_false, isBlank_iff] at hblank
  simp only [startsTarget, Bool.or_eq_true, decide_eq_true_eq] at hc
  rcases hc with ((rfl | rfl) | rfl) | hc
  · exact absurd hblank (by decide)
  · exact absurd hblank (by decide)
  · exact absurd hblank (by decide)
  · rw [not_alphanumeric_of_blank hblank] at hc
    cases hc

theorem exists_trimBlank (hfront : ∀ c ∈ front, isBlank c = true) (hc : isBlank c = false) (rest : List Char) :
    ∃ text back, trimBlank (front ++ c :: rest) = c :: text ∧ rest = text ++ back ∧ ∀ c ∈ back, isBlank c = true := by
  have hstart : trimBlank (front ++ c :: rest) = trimBlank (c :: rest) := by
    rw [trimBlank, trim, trim, (span_append _ hfront (by simpa using hc)).2, List.dropWhile_cons_of_neg (by simp [hc])]
  rw [hstart, trimBlank]
  obtain ⟨front, back, hsplit, hfront, hback⟩ := exists_trim isBlank (c :: rest)
  generalize trim isBlank (c :: rest) = text at hsplit ⊢
  cases front with
  | cons x front =>
      obtain ⟨rfl, _⟩ := List.cons.inj hsplit
      rw [hfront c List.mem_cons_self] at hc
      cases hc
  | nil =>
      cases text with
      | nil =>
          obtain rfl : c :: rest = back := hsplit
          rw [hback c List.mem_cons_self] at hc
          cases hc
      | cons x text =>
          obtain ⟨rfl, hrest⟩ := List.cons.inj hsplit
          exact ⟨text, back, rfl, hrest, hback⟩

theorem exists_trimBlank_equals (hfront : ∀ c ∈ front, isBlank c = true) (hc : isBlank c = false)
    (target rest : List Char) :
    ∃ more, trimBlank (front ++ c :: (target ++ '=' :: rest)) = c :: target ++ '=' :: more := by
  obtain ⟨text, back, htext, hsplit, hback⟩ := exists_trimBlank hfront hc (target ++ '=' :: rest)
  rcases List.append_eq_append_iff.mp hsplit with ⟨as, rfl, has⟩ | ⟨as, _, hblanks⟩
  · cases as with
    | nil =>
        rw [List.nil_append] at has
        exact absurd (hback '=' (has ▸ List.mem_cons_self)) (by decide)
    | cons a as =>
        obtain ⟨rfl, _⟩ := List.cons.inj has
        exact ⟨as, htext⟩
  · exact absurd (hback '=' (by simp [hblanks])) (by decide)

/-- Blanks at the start put the cuts into what follows the target off. So a target that starts with them may stand
alone, but the level that it is given never counts. -/
theorem fault?_of_blank (hne : front ≠ []) (hfront : ∀ c ∈ front, isBlank c = true) (hc : startsTarget c = true)
    {target : List Char} (htarget : ∀ c ∈ target, c ∉ ['=', '[']) (hascii : ∀ x ∈ c :: target, x.utf8Size = 1)
    (rest : List Char) :
    fault? (front ++ c :: target) = none ∧ fault? (front ++ c :: (target ++ '=' :: rest)) = some .level := by
  have hstart : ∀ x ∈ c :: target, x ∉ ['=', '['] :=
    List.forall_mem_cons.mpr ⟨not_mem_of_startsTarget hc, htarget⟩
  constructor
  · obtain ⟨text, back, htext, rfl, _⟩ := exists_trimBlank hfront (not_blank_of_startsTarget hc) target
    have htext' : ∀ x ∈ c :: text, x ∉ ['=', '['] :=
      fun x hx => hstart x (List.cons_subset_cons c (List.subset_append_left text back) hx)
    have hskip : (⟨c :: text ++ [], front ++ c :: (text ++ back)⟩ : Place).skipTo ['=', '['] = ⟨[], _⟩ :=
      Place.skipTo_eq htext' (fun x hx => by cases hx) _
    rw [List.append_nil, ← htext] at hskip
    rw [fault?, Place.directiveFault?_target htext hc, hskip]
    rfl
  · obtain ⟨more, htext⟩ := exists_trimBlank_equals hfront (not_blank_of_startsTarget hc) target rest
    -- the cut falls short of the equals sign by the blanks, so the level is read with the sign in it
    obtain ⟨x, more', hwritten⟩ := Utf8.exists_drop hascii hne ('=' :: rest)
    have hskip : (⟨c :: target ++ '=' :: more, front ++ c :: (target ++ '=' :: rest)⟩ : Place).skipTo ['=', '['] =
        ⟨'=' :: more, _⟩ := Place.skipTo_eq hstart (fun x hx => by cases hx; decide) _
    rw [← htext, ← List.cons_append, hwritten] at hskip
    have hcut : Utf8.drop (Utf8.size ['=']) (x :: (more' ++ '=' :: rest)) = more' ++ '=' :: rest := by
      have hx : 1 - x.utf8Size = 0 := Nat.sub_eq_zero_of_le x.utf8Size_pos
      exact (congrArg (Utf8.drop · _) hx).trans (Utf8.drop_zero _)
    have hmem : '=' ∈ Utf8.drop (Utf8.size ['=']) (x :: (more' ++ '=' :: rest)) := by
      rw [hcut]
      exact List.mem_append_right more' List.mem_cons_self
    have hspan : ¬ ('=' :: more).head? = some '[' := by simp
    rw [fault?, Place.directiveFault?_target htext hc, ← List.cons_append, hskip, if_neg hspan]
    exact Place.levelFault?_of_mem (p := ⟨more, _⟩) hmem

end LogFilter

end BucketStore
