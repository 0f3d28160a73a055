import BucketStore.NamedPage
import BucketStore.StoreError
import Mathlib.Algebra.Order.Group.Nat
import Mathlib.Data.List.Nodup

namespace BucketStore.NamedPage

variable {α : Type} {name : α → String} {items front back : List α} {a : α} {token : Option String} {cap : Nat}
  {ask : Option String → Except StoreError (NamedPage α)} {pages pages' : List (NamedPage α)}

/-- The pages of a client that goes on at the name that each page hands it, until one hands it none. -/
inductive Followed (ask : Option String → Except StoreError (NamedPage α)) :
    Option String → List (NamedPage α) → Prop
  | last {token page} (answer : ask token = .ok page) (final : page.next = none) : Followed ask token [page]
  | turn {token page next pages} (answer : ask token = .ok page) (more : page.next = some next)
      (rest : Followed ask (some next) pages) : Followed ask token (page :: pages)

/-- A client is done after so many calls and was shown these items in this order, each of them once. -/
structure Covers (ask : Option String → Except StoreError (NamedPage α)) (items : List α) (cap : Nat) : Prop where
  ends : ∃ pages, Followed ask none pages
  calls : ∀ pages, Followed ask none pages → pages.length = max 1 ((items.length + cap - 1) / cap)
  items : ∀ pages, Followed ask none pages → pages.flatMap (·.items) = items

def stop (start cap length : Nat) : Nat := min (min (start + cap) (UInt64.size - 1)) length

/-- A page is the stretch of a list between two of its positions, and names the item after it. -/
structure Stretch (name : α → String) (items : List α) (start stop : Nat) (page : NamedPage α) : Prop where
  ordered : start ≤ stop
  within : stop ≤ items.length
  items_eq : page.items = (items.take stop).drop start
  next_eq : page.next = items[stop]?.map name

theorem startIndex_le (name : α → String) (items : List α) (token : Option String) :
    startIndex name items token ≤ items.length := by
  cases token with
  | none => exact Nat.zero_le _
  | some token =>
      rw [startIndex]
      cases h : items.findIdx? (fun a => name a = token) with
      | none => exact Nat.zero_le _
      | some i => exact Nat.le_of_lt (List.findIdx?_eq_some_iff_getElem.mp h).1

theorem startIndex_of_unnamed {token : String} (h : ∀ a ∈ items, name a ≠ token) :
    startIndex name items (some token) = 0 := by
  rw [startIndex, List.findIdx?_eq_none_iff.mpr (by simpa using h)]
  rfl

theorem startIndex_of_split (h : ((front ++ a :: back).map name).Nodup) :
    startIndex name (front ++ a :: back) (some (name a)) = front.length := by
  have hfront : ∀ b ∈ front, name b ≠ name a := by
    intro b hb heq
    rw [List.map_append, List.map_cons] at h
    exact List.disjoint_of_nodup_append h (List.mem_map_of_mem hb) (heq ▸ List.mem_cons_self)
  have hnone : front.findIdx? (fun b => name b = name a) = none := List.findIdx?_eq_none_iff.mpr (by simpa using hfront)
  rw [startIndex, List.findIdx?_append, hnone, List.findIdx?_cons]
  simp

theorem Followed.unique (h : Followed ask token pages) (h' : Followed ask token pages') : pages = pages' := by
  induction h generalizing pages' with
  | last answer final =>
      cases h' with
      | last answer' => rw [Except.ok.inj (answer.symm.trans answer')]
      | turn answer' more =>
          rw [Except.ok.inj (answer.symm.trans answer'), more] at final
          cases final
  | turn answer more rest ih =>
      cases h' with
      | last answer' final =>
          rw [Except.ok.inj (answer.symm.trans answer'), final] at more
          cases more
      | turn answer' more' rest' =>
          obtain rfl := Except.ok.inj (answer.symm.trans answer')
          obtain rfl := Option.some.inj (more.symm.trans more')
          rw [ih rest']

theorem calls_of_le {n : Nat} (hcap : 1 ≤ cap) (h : n ≤ cap) : max 1 ((n + cap - 1) / cap) = 1 := by
  have hlt : (n + cap - 1) / cap < 2 := Nat.div_lt_of_lt_mul (by omega)
  omega

theorem calls_of_lt {n : Nat} (hcap : 1 ≤ cap) (h : cap < n) :
    max 1 ((n + cap - 1) / cap) = max 1 ((n - cap + cap - 1) / cap) + 1 := by
  have hpos : 0 < (n - 1) / cap := Nat.div_pos (by omega) (by omega)
  have hturn : (n + cap - 1) / cap = (n - 1) / cap + 1 := by
    rw [show n + cap - 1 = n - 1 + cap by omega, Nat.add_div_right _ (by omega)]
  rw [hturn, show n - cap + cap - 1 = n - 1 by omega]
  omega

theorem exists_followed (hcap : 1 ≤ cap) (hnames : (items.map name).Nodup)
    (hask : ∀ token, ask token = .ok (cut name items token cap)) (hsplit : items = front ++ back)
    (htoken : startIndex name items token = front.length) :
    ∃ pages, Followed ask token pages ∧ pages.length = max 1 ((back.length + cap - 1) / cap) ∧
      pages.flatMap (·.items) = back := by
  induction hn : back.length using Nat.strong_induction_on generalizing front back token with
  | _ n ih =>
      subst hn
      have hpage : ask token = .ok ⟨back.take cap, back[cap]?.map name⟩ := by
        rw [hask, cut, htoken, hsplit, List.drop_left]
      cases hnext : back[cap]? with
      | none =>
          have hlength : back.length ≤ cap := List.getElem?_eq_none_iff.mp hnext
          rw [hnext] at hpage
          refine ⟨_, .last hpage rfl, (calls_of_le hcap hlength).symm, ?_⟩
          rw [List.flatMap_singleton, List.take_of_length_le hlength]
      | some a =>
          obtain ⟨hlength, ha⟩ := List.getElem?_eq_some_iff.mp hnext
          rw [hnext] at hpage
          -- the name that is handed out is that of the first item past the page, wherever it is looked for
          have hlater : items = (front ++ back.take cap) ++ back.drop cap := by
            rw [List.append_assoc, List.take_append_drop, hsplit]
          have hplace : startIndex name items (some (name a)) = (front ++ back.take cap).length := by
            rw [← List.getElem_cons_drop hlength, ha] at hlater
            rw [hlater] at hnames ⊢
            exact startIndex_of_split hnames
          obtain ⟨pages, hrest, hcalls, hitems⟩ := ih _ (by rw [List.length_drop]; omega) hlater hplace rfl
          refine ⟨_, .turn hpage rfl hrest, ?_, ?_⟩
          · rw [List.length_cons, hcalls, List.length_drop, calls_of_lt hcap hlength]
          · rw [List.flatMap_cons, hitems, List.take_append_drop]

theorem covers_of_nodup (hcap : 1 ≤ cap) (hnames : (items.map name).Nodup)
    (hask : ∀ token, ask token = .ok (cut name items token cap)) : Covers ask items cap := by
  have hstart : startIndex name items none = ([] : List α).length := rfl
  obtain ⟨pages, hpages, hcalls, hitems⟩ := exists_followed hcap hnames hask (List.nil_append items).symm hstart
  refine ⟨⟨pages, hpages⟩, fun pages' h => ?_, fun pages' h => ?_⟩
  · rw [h.unique hpages, hcalls]
  · rw [h.unique hpages, hitems]

theorem cut_of_unnamed {token : String} (h : ∀ a ∈ items, name a ≠ token) (cap : Nat) :
    cut name items (some token) cap = cut name items none cap := by
  rw [cut, cut, startIndex_of_unnamed h]
  rfl

theorem cut_stretch (hlength : items.length < UInt64.size) (token : Option String) (cap : Nat) :
    Stretch name items (startIndex name items token) (stop (startIndex name items token) cap items.length)
      (cut name items token cap) := by
  have hstart := startIndex_le name items token
  generalize hk : startIndex name items token = k at hstart
  have hstop : stop k cap items.length = min (k + cap) items.length := by
    rw [stop]
    omega
  rw [hstop, cut, hk]
  refine ⟨by omega, by omega, ?_, ?_⟩
  · rw [List.drop_take]
    rcases Nat.le_total (k + cap) items.length with hle | hle
    · rw [Nat.min_eq_left hle, Nat.add_sub_cancel_left]
    · have hrest : (items.drop k).length ≤ items.length - k := List.length_drop.le
      rw [Nat.min_eq_right hle, List.take_of_length_le hrest, List.take_of_length_le (by omega)]
  · rw [List.getElem?_drop]
    rcases Nat.le_total (k + cap) items.length with hle | hle
    · rw [Nat.min_eq_left hle]
    · rw [Nat.min_eq_right hle, List.getElem?_eq_none hle, List.getElem?_eq_none le_rfl]

end BucketStore.NamedPage
