import BucketStore.Pattern

namespace BucketStore.Pattern

variable {b b' b₁ : Body} {c : Char} {cs rest inner : List Char} {n k : Nat}

def special : List Char := ['\\', '[', '\x7b', '(', ')', '|', '?', '*', '+']

/-- The texts that take a group from what was read of it to what is read then, as far as they have no escapes, no
sets and no groups that are special. A question mark behind a repetition belongs to it. -/
inductive Reads : Body → List Char → Body → Prop
  | nil (b : Body) : Reads b [] b
  | plain {b b' : Body} {c : Char} {cs : List Char} (hc : c ∉ special) (h : Reads (b.add 0) cs b') :
      Reads b (c :: cs) b'
  | branch {b b' : Body} {cs : List Char} (h : Reads b.branch cs b') : Reads b ('|' :: cs) b'
  | again {b b₁ b' : Body} {c : Char} {cs : List Char} (hc : c ∈ ['?', '*', '+']) (hlast : b.repeatLast? = some b₁)
      (hcs : cs.head? ≠ some '?') (h : Reads b₁ cs b') : Reads b (c :: cs) b'
  | againLazy {b b₁ b' : Body} {c : Char} {cs : List Char} (hc : c ∈ ['?', '*', '+'])
      (hlast : b.repeatLast? = some b₁) (h : Reads b₁ cs b') : Reads b (c :: '?' :: cs) b'
  | group {b b₁ b' : Body} {inner cs : List Char} (hinner : Reads {} inner b₁)
      (h : Reads (b.add (b₁.depth + 1)) cs b') : Reads b ('(' :: (inner ++ ')' :: cs)) b'

theorem Reads.head_ne (h : Reads {} cs b) : cs.head? ≠ some '?' := by
  cases h with
  | nil => exact nofun
  | plain hc =>
      rintro h
      rw [Option.some.inj h] at hc
      exact hc (by decide)
  | branch | group => exact fun h => absurd (Option.some.inj h) (by decide)
  | again _ hlast | againLazy _ hlast => cases hlast

theorem readAtom?_plain (hc : c ∉ special) (rest : List Char) :
    ∃ atom, readAtom? {} (c :: rest) = some (atom, rest) ∧ ({} : Context).admit? atom = some {} := by
  rw [readAtom?.eq_def]
  split
  · rename_i h
    cases h
  · rename_i h
    exact absurd (by decide) ((List.cons.inj h).1 ▸ hc)
  · rename_i h
    obtain ⟨_, rfl⟩ := List.cons.inj h
    exact ⟨_, rfl, rfl⟩
  · rename_i h
    obtain ⟨_, rfl⟩ := List.cons.inj h
    exact ⟨_, rfl, rfl⟩
  · rename_i h
    obtain ⟨_, rfl⟩ := List.cons.inj h
    exact ⟨_, rfl, rfl⟩
  · rename_i h
    obtain ⟨rfl, rfl⟩ := List.cons.inj h
    exact ⟨_, rfl, rfl⟩

theorem readBody?_plain (hc : c ∉ special) :
    readBody? (n + 1) b {} (c :: rest) = readBody? n (b.add 0) {} rest := by
  obtain ⟨atom, hatom, hadmit⟩ := readAtom?_plain hc rest
  simp only [special, List.mem_cons, List.not_mem_nil, or_false, not_or] at hc
  simp [readBody?, Flags.skip, hc, hatom, hadmit]

theorem readBody?_again (hc : c ∈ ['?', '*', '+']) : readBody? (n + 1) b {} (c :: rest) =
    b.repeatLast?.bind (fun b => readBody? n b {} (if rest.head? = some '?' then rest.tail else rest)) := by
  simp only [List.mem_cons, List.not_mem_nil, or_false] at hc
  rcases hc with rfl | rfl | rfl <;> simp [readBody?, Flags.skip] <;> cases b.repeatLast? <;> rfl

theorem readOpening?_plain (hrest : rest.head? ≠ some '?') : readOpening? {} rest = some (.group, {}, rest) := by
  have hskip : ({} : Context).flags.skip rest = rest := rfl
  rw [readOpening?, hskip]
  cases rest with
  | nil => rfl
  | cons c rest =>
      have hc : c ≠ '?' := fun h => hrest (congrArg some h)
      simp [hc]

theorem readBody?_group (hrest : rest.head? ≠ some '?') {depth : Nat} {ctx : Context} {back : List Char}
    (h : readBody? n {} {} rest = some (depth, ctx, ')' :: back)) :
    readBody? (n + 1) b {} ('(' :: rest) = readBody? n (b.add (depth + 1)) { ctx with flags := {} } back := by
  simp [readBody?, Flags.skip, readOpening?_plain hrest, h]

theorem exists_of_readBody?_group (hrest : rest.head? ≠ some '?') {p : Nat × Context × List Char}
    (h : readBody? (n + 1) b {} ('(' :: rest) = some p) :
    ∃ depth ctx back, readBody? n {} {} rest = some (depth, ctx, ')' :: back) ∧
      readBody? n (b.add (depth + 1)) { ctx with flags := {} } back = some p := by
  simp only [readBody?, Flags.skip, Bool.false_eq_true, if_false, readOpening?_plain hrest] at h
  split at h
  · rename_i hinner
    exact ⟨_, _, _, hinner, h⟩
  · cases h

theorem head_append_ne (hcs : cs.head? ≠ some '?') (hrest : rest.head? ≠ some '?') :
    (cs ++ rest).head? ≠ some '?' := by
  cases cs with
  | nil => exact hrest
  | cons c cs => exact hcs

theorem Reads.readBody?_append (h : Reads b cs b') {result : Option (Nat × Context × List Char)}
    (hrest : ∀ m ≥ k, readBody? m b' {} rest = result) (hn : cs.length + k ≤ n) (hk : rest.head? ≠ some '?') :
    readBody? n b {} (cs ++ rest) = result := by
  induction h generalizing n k rest result with
  | nil b => exact hrest n (by simpa using hn)
  | plain hc _ ih =>
      obtain ⟨n, rfl⟩ : ∃ m, n = m + 1 := ⟨n - 1, by simp at hn; omega⟩
      rw [List.cons_append, readBody?_plain hc]
      exact ih hrest (by simp at hn; omega) hk
  | branch _ ih =>
      obtain ⟨n, rfl⟩ : ∃ m, n = m + 1 := ⟨n - 1, by simp at hn; omega⟩
      exact ih hrest (by simp at hn; omega) hk
  | again hc hlast hcs _ ih =>
      obtain ⟨n, rfl⟩ : ∃ m, n = m + 1 := ⟨n - 1, by simp at hn; omega⟩
      rw [List.cons_append, readBody?_again hc, hlast, Option.bind_some, if_neg]
      · exact ih hrest (by simp at hn; omega) hk
      · exact head_append_ne hcs hk
  | againLazy hc hlast _ ih =>
      obtain ⟨n, rfl⟩ : ∃ m, n = m + 1 := ⟨n - 1, by simp at hn; omega⟩
      rw [List.cons_append, readBody?_again hc, hlast, Option.bind_some]
      exact ih hrest (by simp at hn; omega) hk
  | @group b b₁ b' inner cs hinner _ ihinner ih =>
      obtain ⟨n, rfl⟩ : ∃ m, n = m + 1 := ⟨n - 1, by simp at hn; omega⟩
      have hread : readBody? n {} {} (inner ++ ')' :: (cs ++ rest)) = some (b₁.depth, {}, ')' :: (cs ++ rest)) := by
        refine ihinner (k := 1) (fun m hm => ?_) (by simp at hn; omega) (by simp)
        obtain ⟨m, rfl⟩ : ∃ l, m = l + 1 := ⟨m - 1, by omega⟩
        rfl
      have hhead : (inner ++ ')' :: (cs ++ rest)).head? ≠ some '?' := head_append_ne hinner.head_ne (by simp)
      rw [List.cons_append, List.append_assoc, List.cons_append, readBody?_group hhead hread]
      exact ih hrest (by simp at hn; omega) hk

/-- Texts without escapes, without sets and without special groups. -/
structure Plain (cs : List Char) : Prop where
  free : ∀ c ∈ cs, c ∉ ['\\', '[', '\x7b']
  ungrouped : ¬ ['(', '?'] <:+: cs

theorem Plain.within {inner : List Char} (h : Plain cs) (hinner : inner <:+: cs) : Plain inner :=
  ⟨fun c hc => h.free c (hinner.subset hc), fun hmem => h.ungrouped (hmem.trans hinner)⟩

theorem exists_reads {depth : Nat} {ctx : Context} (hplain : Plain cs)
    (h : readBody? n b {} cs = some (depth, ctx, rest)) :
    ctx = {} ∧ (rest = [] ∨ ∃ back, rest = ')' :: back) ∧
      ∃ front b', cs = front ++ rest ∧ Reads b front b' ∧ b'.depth = depth := by
  induction n generalizing b cs depth ctx rest with
  | zero => cases h
  | succ n ih =>
      cases cs with
      | nil =>
          cases h
          exact ⟨rfl, .inl rfl, [], b, rfl, .nil b, rfl⟩
      | cons c cs =>
          have hcs : Plain cs := hplain.within (List.infix_cons List.infix_rfl)
          by_cases hc : c ∈ special
          · have hfree := hplain.free c List.mem_cons_self
            simp only [special, List.mem_cons, List.not_mem_nil, or_false] at hc hfree
            rcases hc with rfl | rfl | rfl | rfl | rfl | rfl | hc
            · exact absurd hfree (by decide)
            · exact absurd hfree (by decide)
            · exact absurd hfree (by decide)
            · have hhead : cs.head? ≠ some '?' := by
                intro hhead
                obtain ⟨back, rfl⟩ := List.head?_eq_some_iff.mp hhead
                exact hplain.ungrouped ⟨[], back, rfl⟩
              obtain ⟨_, _, back, hinner, h⟩ := exists_of_readBody?_group hhead h
              obtain ⟨rfl, _, front, b₁, rfl, hreads, rfl⟩ := ih hcs hinner
              obtain ⟨hctx, hrest, front', b', rfl, hreads', hdepth⟩ :=
                ih (hcs.within ⟨front ++ [')'], [], by simp⟩) h
              exact ⟨hctx, hrest, '(' :: (front ++ ')' :: front'), b', by simp, .group hreads hreads', hdepth⟩
            · cases h
              exact ⟨rfl, .inr ⟨_, rfl⟩, [], b, rfl, .nil b, rfl⟩
            · obtain ⟨hctx, hrest, front, b', rfl, hreads, hdepth⟩ := ih hcs h
              exact ⟨hctx, hrest, '|' :: front, b', rfl, .branch hreads, hdepth⟩
            · have hagain : c ∈ ['?', '*', '+'] := by simpa using hc
              rw [readBody?_again hagain] at h
              obtain ⟨b₁, hlast, h⟩ := Option.bind_eq_some_iff.mp h
              split at h
              · rename_i hlazy
                obtain ⟨back, rfl⟩ := List.head?_eq_some_iff.mp hlazy
                obtain ⟨hctx, hrest, front, b', rfl, hreads, hdepth⟩ :=
                  ih (hcs.within (List.infix_cons List.infix_rfl)) h
                exact ⟨hctx, hrest, c :: '?' :: front, b', rfl, .againLazy hagain hlast hreads, hdepth⟩
              · rename_i hgreedy
                obtain ⟨hctx, hrest, front, b', rfl, hreads, hdepth⟩ := ih hcs h
                have hfront : front.head? ≠ some '?' := by
                  cases front with
                  | nil => exact nofun
                  | cons x front => exact hgreedy
                exact ⟨hctx, hrest, c :: front, b', rfl, .again hagain hlast hfront hreads, hdepth⟩
          · rw [readBody?_plain hc] at h
            obtain ⟨hctx, hrest, front, b', rfl, hreads, hdepth⟩ := ih hcs h
            exact ⟨hctx, hrest, c :: front, b', rfl, .plain hc hreads, hdepth⟩

theorem fault?_of_reads (h : Reads {} cs b) :
    fault? cs = if depthLimit < b.depth then some .malformed else none := by
  have hread : readBody? (cs.length + 1) {} {} (cs ++ []) = some (b.depth, {}, []) := by
    refine h.readBody?_append (k := 1) (fun m hm => ?_) (Nat.le_refl _) nofun
    obtain ⟨m, rfl⟩ : ∃ l, m = l + 1 := ⟨m - 1, by omega⟩
    rfl
  rw [List.append_nil] at hread
  rw [fault?, hread]
  rfl

theorem fault?_eq_none_iff (hplain : Plain cs) : fault? cs = none ↔ ∃ b, Reads {} cs b ∧ b.depth ≤ depthLimit := by
  constructor
  · intro h
    cases hread : readBody? (cs.length + 1) {} {} cs with
    | none =>
        rw [fault?, hread] at h
        cases h
    | some p =>
        obtain ⟨depth, ctx, rest⟩ := p
        obtain ⟨rfl, hrest, front, b, rfl, hreads, rfl⟩ := exists_reads hplain hread
        rcases hrest with rfl | ⟨back, rfl⟩
        · rw [List.append_nil] at h ⊢
          refine ⟨b, hreads, Nat.le_of_not_lt (fun hdeep => ?_)⟩
          rw [fault?_of_reads hreads, if_pos hdeep] at h
          cases h
        · rw [fault?, hread] at h
          cases h
  · rintro ⟨b, hreads, hdepth⟩
    rw [fault?_of_reads hreads, if_neg (by omega)]

theorem exists_reads_of_plain (h : ∀ c ∈ cs, c ∉ special) (b : Body) :
    ∃ b', Reads b cs b' ∧ b'.parts.deepest = b.parts.deepest ∧ b'.branches = b.branches := by
  induction cs generalizing b with
  | nil => exact ⟨b, .nil b, rfl, rfl⟩
  | cons c cs ih =>
      obtain ⟨hc, hcs⟩ := List.forall_mem_cons.mp h
      obtain ⟨b', hreads, hdeepest, hbranches⟩ := ih hcs (b.add 0)
      exact ⟨b', .plain hc hreads, hdeepest.trans (Nat.max_zero _), hbranches⟩

theorem fault?_of_plain (h : ∀ c ∈ cs, c ∉ special) : fault? cs = none := by
  obtain ⟨b, hreads, hdeepest, hbranches⟩ := exists_reads_of_plain h {}
  have hdepth : b.depth ≤ 1 := by
    rw [Body.depth, hbranches]
    change (if b.parts.count ≤ 1 then b.parts.deepest else b.parts.deepest + 1) ≤ 1
    rw [hdeepest]
    split <;> decide
  rw [fault?_of_reads hreads, if_neg (Nat.not_lt.mpr (Nat.le_trans hdepth (by decide)))]

/-- Parentheses may be nested as deep as patterns may, and no deeper. -/
theorem fault?_nested (n : Nat) : fault? (List.replicate n '(' ++ List.replicate n ')') = none ↔ n ≤ depthLimit := by
  have hreads : ∃ b, Reads {} (List.replicate n '(' ++ List.replicate n ')') b ∧ b.depth = n := by
    induction n with
    | zero => exact ⟨{}, .nil {}, rfl⟩
    | succ n ih =>
        obtain ⟨b, hreads, hdepth⟩ := ih
        refine ⟨(({} : Body).add (b.depth + 1)), ?_, ?_⟩
        · rw [List.replicate_succ, List.replicate_succ', List.cons_append, ← List.append_assoc]
          exact .group hreads (.nil _)
        · exact (Nat.zero_max _).trans (congrArg Nat.succ hdepth)
  obtain ⟨b, hreads, rfl⟩ := hreads
  rw [fault?_of_reads hreads]
  split <;> simp <;> omega

end BucketStore.Pattern
