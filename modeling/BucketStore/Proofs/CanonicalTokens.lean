import BucketStore.Proofs.ContinuationToken
import Mathlib.Data.Nat.Digits.Defs
import Mathlib.Tactic.Ring

namespace BucketStore

namespace Text.Base64

def Digit (c : Char) : Prop :=
  'A' ≤ c ∧ c ≤ 'Z' ∨ 'a' ≤ c ∧ c ≤ 'z' ∨ '0' ≤ c ∧ c ≤ '9' ∨ c = '+' ∨ c = '/'

/-- The written form of a byte string: digits that are worth in base 64 what the bytes are worth in base 256,
with zero bits behind them up to a whole digit, and fill behind the digits up to a whole group. -/
def Written (bytes : List UInt8) (cs : List Char) : Prop :=
  ∃ (digits : List Nat) (fill : Nat), cs = digits.map char ++ List.replicate fill '=' ∧ (∀ d ∈ digits, d < 64) ∧
    fill < 3 ∧ 3 * digits.length = 4 * bytes.length + fill ∧
    Nat.ofDigits 64 digits.reverse = Nat.ofDigits 256 (bytes.map UInt8.toNat).reverse * 4 ^ fill

/-- What can be wrong with a text that no bytes are written as: its length, a character that is neither a digit nor
fill, such as a blank, fill further in front than the last two places or with a digit behind it, or a last digit with
bits that belong to no byte. -/
inductive Malformed (cs : List Char) : Prop
  | length (h : cs.length % 4 ≠ 0)
  | foreign (c : Char) (hc : c ∈ cs) (hfill : c ≠ '=') (h : ¬ Digit c)
  | early (front back : List Char) (h : cs = front ++ '=' :: back) (hback : 2 ≤ back.length)
  | between (front : List Char) (c : Char) (h : cs = front ++ ['=', c]) (hfill : c ≠ '=')
  | bits (front : List Char) (c : Char) (n fill : Nat) (h : cs = front ++ c :: List.replicate fill '=')
      (hn : value? c = some n) (hbits : ¬ 4 ^ fill ∣ n)

variable {a b c w x y z : Char} {n : Nat} {cs front back : List Char} {bytes : List UInt8}

theorem value?_eq_none_iff : value? c = none ↔ ¬ Digit c := by
  rw [value?, Digit]
  split
  · simp_all
  · split
    · simp_all
    · split
      · simp_all
      · split
        · simp_all
        · split <;> simp_all

theorem Digit.ascii (h : Digit c) : c.toNat < 128 := by
  rcases h with h | h | h | rfl | rfl
  · exact ascii_of_le (by decide) h.2
  · exact ascii_of_le (by decide) h.2
  · exact ascii_of_le (by decide) h.2
  · decide
  · decide

theorem value?_ascii : ∀ k < 128, ∀ n ∈ value? (Char.ofNat k), n < 64 ∧ char n = Char.ofNat k := by decide

theorem char_of_value? (h : value? c = some n) : n < 64 ∧ char n = c := by
  have hdigit : Digit c := by
    by_contra hc
    rw [value?_eq_none_iff.mpr hc] at h
    cases h
  exact forall_ascii (P := fun c => ∀ n ∈ value? c, n < 64 ∧ char n = c) value?_ascii hdigit.ascii n h

theorem digit_char {n : Nat} (h : n < 64) : Digit (char n) := by
  by_contra hc
  have hnone := value?_eq_none_iff.mpr hc
  rw [value?_char n h] at hnone
  cases hnone

theorem toNat_toUInt8 (h : n < 256) : n.toUInt8.toNat = n := by
  simp [Nat.mod_eq_of_lt h]

theorem encode_group {w x y z : Nat} (hw : w < 64) (hx : x < 64) (hy : y < 64) (hz : z < 64) (bytes : List UInt8) :
    encode ((w * 4 + x / 16).toUInt8 :: (x % 16 * 16 + y / 4).toUInt8 :: (y % 4 * 64 + z).toUInt8 :: bytes) =
      char w :: char x :: char y :: char z :: encode bytes := by
  rw [encode, toNat_toUInt8 (by omega), toNat_toUInt8 (by omega), toNat_toUInt8 (by omega)]
  rw [show (w * 4 + x / 16) / 4 = w by omega,
    show (w * 4 + x / 16) % 4 * 16 + (x % 16 * 16 + y / 4) / 16 = x by omega,
    show (x % 16 * 16 + y / 4) % 16 * 4 + (y % 4 * 64 + z) / 64 = y by omega,
    show (y % 4 * 64 + z) % 64 = z by omega]

theorem encode_of_decodeLast? (h : decodeLast? w x y z = some bytes) : [w, x, y, z] = encode bytes := by
  rw [decodeLast?] at h
  split at h
  · rename_i hz
    split at h
    · rename_i w' x' hw hx
      obtain ⟨hw', rfl⟩ := char_of_value? hw
      obtain ⟨hx', rfl⟩ := char_of_value? hx
      split at h
      · rename_i hy
        obtain ⟨hbits, hbytes⟩ := Option.ite_none_right_eq_some.mp h
        obtain rfl := Option.some.inj hbytes
        rw [encode, toNat_toUInt8 (by omega), hy, hz]
        rw [show (w' * 4 + x' / 16) / 4 = w' by omega, show (w' * 4 + x' / 16) % 4 * 16 = x' by omega]
      · split at h
        · rename_i y' hy
          obtain ⟨hy', rfl⟩ := char_of_value? hy
          obtain ⟨hbits, hbytes⟩ := Option.ite_none_right_eq_some.mp h
          obtain rfl := Option.some.inj hbytes
          rw [encode, toNat_toUInt8 (by omega), toNat_toUInt8 (by omega), hz]
          rw [show (w' * 4 + x' / 16) / 4 = w' by omega,
            show (w' * 4 + x' / 16) % 4 * 16 + (x' % 16 * 16 + y' / 4) / 16 = x' by omega,
            show (x' % 16 * 16 + y' / 4) % 16 * 4 = y' by omega]
        · cases h
    · cases h
  · split at h
    · rename_i w' x' y' z' hw hx hy hz
      obtain ⟨hw', rfl⟩ := char_of_value? hw
      obtain ⟨hx', rfl⟩ := char_of_value? hx
      obtain ⟨hy', rfl⟩ := char_of_value? hy
      obtain ⟨hz', rfl⟩ := char_of_value? hz
      obtain rfl := Option.some.inj h
      exact (encode_group hw' hx' hy' hz' []).symm
    · cases h

theorem encode_of_decode? (h : decode? cs = some bytes) : cs = encode bytes := by
  induction cs using decode?.induct generalizing bytes with
  | case1 =>
      obtain rfl := Option.some.inj h
      rfl
  | case2 w x y z => exact encode_of_decodeLast? h
  | case3 w x y z rest hrest w' x' y' z' bs hbs hz hy hx hw ih =>
      rw [decode?, hw, hx, hy, hz, hbs] at h
      · obtain rfl := Option.some.inj h
        obtain ⟨hw', rfl⟩ := char_of_value? hw
        obtain ⟨hx', rfl⟩ := char_of_value? hx
        obtain ⟨hy', rfl⟩ := char_of_value? hy
        obtain ⟨hz', rfl⟩ := char_of_value? hz
        rw [encode_group hw' hx' hy' hz', ih hbs]
      · exact hrest
  | case4 w x y z rest hrest hnone ih =>
      rw [decode?] at h
      · split at h
        · rename_i hbs hz hy hx hw
          exact (hnone _ _ _ _ _ ‹_› ‹_› ‹_› ‹_› ‹_›).elim
        · cases h
      · exact hrest
  | case5 cs hnil hlast hgroup =>
      rw [decode?] at h
      · cases h
      · exact hnil
      · exact hlast
      · exact hgroup

theorem ofDigits_group (digits : List Nat) (w x y z : Nat) :
    Nat.ofDigits 64 (w :: x :: y :: z :: digits).reverse =
      Nat.ofDigits 64 digits.reverse + 64 ^ digits.length * (w * 262144 + x * 4096 + y * 64 + z) := by
  simp only [List.reverse_cons, List.append_assoc, List.cons_append, List.nil_append, Nat.ofDigits_append,
    List.length_reverse, Nat.ofDigits_cons, Nat.ofDigits_nil]
  ring

theorem ofDigits_bytes (bytes : List UInt8) (a b c : UInt8) :
    Nat.ofDigits 256 ((a :: b :: c :: bytes).map UInt8.toNat).reverse =
      Nat.ofDigits 256 (bytes.map UInt8.toNat).reverse +
        256 ^ bytes.length * (a.toNat * 65536 + b.toNat * 256 + c.toNat) := by
  simp only [List.map_cons, List.reverse_cons, List.append_assoc, List.cons_append, List.nil_append,
    Nat.ofDigits_append, List.length_reverse, List.length_map, Nat.ofDigits_cons, Nat.ofDigits_nil]
  ring

theorem encode_written (bytes : List UInt8) : Written bytes (encode bytes) := by
  induction bytes using encode.induct with
  | case1 => exact ⟨[], 0, rfl, by simp, by decide, rfl, rfl⟩
  | case2 a =>
      have ha := a.toNat_lt
      refine ⟨[a.toNat / 4, a.toNat % 4 * 16], 2, rfl, ?_, by decide, rfl, ?_⟩
      · simp only [List.forall_mem_cons, List.not_mem_nil, false_imp_iff, implies_true, and_true]
        omega
      · simp [Nat.ofDigits_cons]
        omega
  | case3 a b =>
      have ha := a.toNat_lt
      have hb := b.toNat_lt
      refine ⟨[a.toNat / 4, a.toNat % 4 * 16 + b.toNat / 16, b.toNat % 16 * 4], 1, rfl, ?_, by decide, rfl, ?_⟩
      · simp only [List.forall_mem_cons, List.not_mem_nil, false_imp_iff, implies_true, and_true]
        omega
      · simp [Nat.ofDigits_cons]
        omega
  | case4 a b c rest ih =>
      have ha := a.toNat_lt
      have hb := b.toNat_lt
      have hc := c.toNat_lt
      obtain ⟨digits, fill, hcs, hdigits, hfill, hlength, hvalue⟩ := ih
      refine ⟨a.toNat / 4 :: (a.toNat % 4 * 16 + b.toNat / 16) :: (b.toNat % 16 * 4 + c.toNat / 64) ::
        c.toNat % 64 :: digits, fill, by rw [encode, hcs]; rfl, ?_, hfill, ?_, ?_⟩
      · simp only [List.forall_mem_cons]
        exact ⟨by omega, by omega, by omega, by omega, hdigits⟩
      · simp only [List.length_cons]
        omega
      · have hpow : 256 ^ rest.length * 4 ^ fill = 64 ^ digits.length := by
          rw [show 256 = 4 ^ 4 by rfl, show 64 = 4 ^ 3 by rfl, ← pow_mul, ← pow_mul, ← pow_add, hlength]
        have hsame : a.toNat / 4 * 262144 + (a.toNat % 4 * 16 + b.toNat / 16) * 4096 +
            (b.toNat % 16 * 4 + c.toNat / 64) * 64 + c.toNat % 64 = a.toNat * 65536 + b.toNat * 256 + c.toNat := by
          omega
        rw [ofDigits_group, ofDigits_bytes, hsame, hvalue, ← hpow]
        ring

theorem eq_of_fill {l : List Char} {j k : Nat} (hl : '=' ∉ l) (hc : c ≠ '=')
    (h : l ++ List.replicate j '=' = front ++ c :: List.replicate k '=') : j = k ∧ l = front ++ [c] := by
  induction k generalizing j with
  | zero =>
      cases j with
      | zero => exact ⟨rfl, by simpa using h⟩
      | succ j =>
          rw [List.replicate_succ', ← List.append_assoc] at h
          exact absurd (List.append_inj_right' h rfl) (by simpa using Ne.symm hc)
  | succ k ih =>
      cases j with
      | zero => exact absurd (by simp_all) hl
      | succ j =>
          rw [List.replicate_succ', List.replicate_succ', ← List.append_assoc, ← List.cons_append,
            ← List.append_assoc] at h
          obtain ⟨hjk, hfront⟩ := ih (List.append_inj_left' h rfl)
          exact ⟨congrArg (· + 1) hjk, hfront⟩

theorem pow_dvd_last {start : List Nat} {d m fill : Nat} (hfill : fill < 3)
    (h : Nat.ofDigits 64 (start ++ [d]).reverse = m * 4 ^ fill) : 4 ^ fill ∣ d := by
  rw [List.reverse_append, List.reverse_singleton, List.singleton_append, Nat.ofDigits_cons] at h
  have hgroup : 4 ^ fill ∣ 64 * Nat.ofDigits 64 start.reverse :=
    Dvd.dvd.mul_right (pow_dvd_pow 4 (show fill ≤ 3 by omega)) _
  refine (Nat.dvd_add_left hgroup).mp ?_
  rw [h]
  exact Nat.dvd_mul_left _ _

theorem Written.not_malformed (h : Written bytes cs) : ¬ Malformed cs := by
  obtain ⟨digits, fill, hcs, hdigits, hfill, hlength, hvalue⟩ := h
  have hsize : cs.length = digits.length + fill := by rw [hcs]; simp
  have hnone : '=' ∉ digits.map char := by
    rintro hmem
    obtain ⟨d, hd, hchar⟩ := List.mem_map.mp hmem
    exact char_ne_fill d (hdigits d hd) hchar
  have hplace : ∀ i, cs[i]? = some '=' → digits.length ≤ i := by
    intro i hi
    by_contra hlt
    rw [hcs, List.getElem?_append_left (by simpa using hlt)] at hi
    exact hnone (List.mem_of_getElem? hi)
  intro hbad
  cases hbad with
  | length h => omega
  | foreign c hc hne h =>
      rw [hcs, List.mem_append, List.mem_map] at hc
      rcases hc with ⟨d, hd, rfl⟩ | hc
      · exact h (digit_char (hdigits d hd))
      · exact hne (List.eq_of_mem_replicate hc)
  | early front back h hback =>
      have hbegun := hplace front.length (by simp [h])
      rw [h, List.length_append, List.length_cons] at hsize
      omega
  | between front c h hne =>
      have hbegun := hplace front.length (by simp [h])
      have hlast : cs[front.length + 1]? = some c := by simp [h]
      rw [hcs, List.getElem?_append_right (by simp; omega)] at hlast
      exact hne (List.eq_of_mem_replicate (List.mem_of_getElem? hlast))
  | bits front c n k h hn hbits =>
      obtain ⟨hlt, rfl⟩ := char_of_value? hn
      obtain ⟨rfl, hmap⟩ := eq_of_fill hnone (char_ne_fill n hlt) (hcs.symm.trans h)
      obtain ⟨start, last, rfl, _, hlast⟩ := List.map_eq_append_iff.mp hmap
      obtain ⟨d, rfl, hd⟩ := List.map_eq_singleton_iff.mp hlast
      have hvalue? := value?_char d (hdigits d (by simp))
      rw [hd, hn] at hvalue?
      obtain rfl := Option.some.inj hvalue?
      exact hbits (pow_dvd_last hfill hvalue)

theorem malformed_of_value?_none (front : List Char) (h : value? c = none) (hback : 2 ≤ back.length) :
    Malformed (front ++ c :: back) := by
  by_cases hc : c = '='
  · exact .early front back (by rw [hc]) hback
  · exact .foreign c (by simp) hc (value?_eq_none_iff.mp h)

theorem Malformed.append (front : List Char) (hfront : front.length % 4 = 0) (h : Malformed cs) :
    Malformed (front ++ cs) := by
  cases h with
  | length h =>
      refine .length ?_
      rw [List.length_append]
      omega
  | foreign c hc hfill h => exact .foreign c (List.mem_append_right _ hc) hfill h
  | early start back h hback => exact .early (front ++ start) back (by rw [h, List.append_assoc]) hback
  | between start c h hfill => exact .between (front ++ start) c (by rw [h, List.append_assoc]) hfill
  | bits start c n fill h hn hbits => exact .bits (front ++ start) c n fill (by rw [h, List.append_assoc]) hn hbits

theorem malformed_of_decodeLast? (h : decodeLast? w x y z = none) : Malformed [w, x, y, z] := by
  cases hw : value? w with
  | none => exact malformed_of_value?_none [] hw (by simp)
  | some w' =>
      cases hx : value? x with
      | none => exact malformed_of_value?_none [w] hx (by simp)
      | some x' =>
          simp only [decodeLast?, hw, hx] at h
          split at h
          · rename_i hz
            subst hz
            split at h
            · rename_i hy
              subst hy
              refine .bits [w] x x' 2 rfl hx (fun hbits => ?_)
              have hzero : x' % 16 = 0 := Nat.mod_eq_zero_of_dvd hbits
              rw [if_pos hzero] at h
              cases h
            · rename_i hy
              split at h
              · rename_i y' hy'
                refine .bits [w, x] y y' 1 rfl hy' (fun hbits => ?_)
                have hzero : y' % 4 = 0 := Nat.mod_eq_zero_of_dvd hbits
                rw [if_pos hzero] at h
                cases h
              · rename_i hy'
                exact .foreign y (by simp) hy (value?_eq_none_iff.mp hy')
          · rename_i hz
            by_cases hy : y = '='
            · exact .between [w, x] z (by rw [hy]; rfl) hz
            · cases hy' : value? y with
              | none => exact .foreign y (by simp) hy (value?_eq_none_iff.mp hy')
              | some y' =>
                  cases hz' : value? z with
                  | none => exact .foreign z (by simp) hz (value?_eq_none_iff.mp hz')
                  | some z' =>
                      rw [hy', hz'] at h
                      cases h

theorem malformed_of_decode? (h : decode? cs = none) : Malformed cs := by
  induction cs using decode?.induct with
  | case1 => cases h
  | case2 w x y z => exact malformed_of_decodeLast? h
  | case3 w x y z rest hrest w' x' y' z' bs hbs hz hy hx hw ih =>
      rw [decode?, hw, hx, hy, hz, hbs] at h
      · cases h
      · exact hrest
  | case4 w x y z rest hrest hnone ih =>
      have hpos : 0 < rest.length := List.length_pos_iff.mpr hrest
      have hfault : value? w = none ∨ value? x = none ∨ value? y = none ∨ value? z = none ∨ decode? rest = none := by
        by_contra hall
        simp only [not_or, ← ne_eq, Option.ne_none_iff_exists'] at hall
        obtain ⟨⟨_, hw⟩, ⟨_, hx⟩, ⟨_, hy⟩, ⟨_, hz⟩, ⟨_, hbs⟩⟩ := hall
        exact hnone _ _ _ _ _ hw hx hy hz hbs
      by_cases hlength : rest.length % 4 = 0
      · rcases hfault with hw | hx | hy | hz | hbs
        · exact malformed_of_value?_none [] hw (by simp)
        · exact malformed_of_value?_none [w] hx (by simp)
        · exact malformed_of_value?_none [w, x] hy (by simp; omega)
        · exact malformed_of_value?_none [w, x, y] hz (by omega)
        · exact .append [w, x, y, z] (by simp) (ih hbs)
      · refine .length ?_
        simp only [List.length_cons]
        omega
  | case5 cs hnil hlast hgroup =>
      refine .length ?_
      rcases cs with _ | ⟨w, _ | ⟨x, _ | ⟨y, _ | ⟨z, rest⟩⟩⟩⟩
      · exact absurd rfl hnil
      · simp
      · simp
      · simp
      · exact absurd rfl (hgroup w x y z rest)

theorem decode?_eq_none_iff : decode? cs = none ↔ Malformed cs := by
  refine ⟨malformed_of_decode?, fun hbad => ?_⟩
  cases h : decode? cs with
  | none => rfl
  | some bytes =>
      rw [encode_of_decode? h] at hbad
      exact absurd hbad (encode_written bytes).not_malformed

example : ["YQ", "YQ=", "YQ===", "Y=Q=", "YR==", "YWJ=", "Y Q=", "YQ==YQ=="].map (fun cs => decode? cs.toList) =
    List.replicate 8 none := by decide

end Text.Base64

namespace ContinuationToken

open Text

variable {token marker : String}

theorem decode_eq_ok_iff : decode token = .ok marker ↔ token = encode marker := by
  refine ⟨fun h => ?_, fun h => h ▸ decode_encode marker⟩
  rw [decode] at h
  split at h
  · cases h
  · rename_i bytes hbytes
    split at h
    · cases h
    · rename_i hmarker
      obtain rfl := Except.ok.inj h
      rw [encode, ← Utf8.decode?_eq_some_iff.mp hmarker, ← Base64.encode_of_decode? hbytes, String.ofList_toList]

theorem decode_eq_malformed_iff :
    decode token = .error (.invalidArgument "Invalid continuation token") ↔ Base64.Malformed token.toList := by
  rw [← Base64.decode?_eq_none_iff, decode]
  split
  · simp [*]
  · split <;> simp [*]

theorem decode_eq_not_text_iff :
    decode token = .error (.invalidArgument "Continuation token contains invalid UTF-8") ↔
      ∃ bytes, token = String.ofList (Base64.encode bytes) ∧ ∀ marker, bytes ≠ Utf8.encode marker := by
  constructor
  · intro h
    rw [decode] at h
    split at h
    · simp at h
    · rename_i bytes hbytes
      split at h
      · rename_i hnone
        refine ⟨bytes, by rw [← Base64.encode_of_decode? hbytes, String.ofList_toList], fun marker hmarker => ?_⟩
        rw [Utf8.decode?_eq_some_iff.mpr hmarker] at hnone
        cases hnone
      · cases h
  · rintro ⟨bytes, rfl, hnone⟩
    have hdecode : Utf8.decode? bytes = none :=
      Option.eq_none_iff_forall_ne_some.mpr (fun marker h => hnone marker (Utf8.decode?_eq_some_iff.mp h))
    rw [decode, String.toList_ofList, Base64.decode?_encode]
    dsimp only
    rw [hdecode]

theorem decode_error {cause : StoreError} (h : decode token = .error cause) :
    ∃ reason, cause = .invalidArgument reason := by
  rw [decode] at h
  split at h
  · exact ⟨_, (Except.error.inj h).symm⟩
  · split at h
    · exact ⟨_, (Except.error.inj h).symm⟩
    · cases h

theorem refused_of_not_token (h : ∀ marker, token ≠ encode marker) :
    ∃ reason, decode token = .error (.invalidArgument reason) := by
  cases hdecode : decode token with
  | ok marker => exact absurd (decode_eq_ok_iff.mp hdecode) (h marker)
  | error cause =>
      obtain ⟨reason, rfl⟩ := decode_error hdecode
      exact ⟨reason, rfl⟩

/-- Tokens are a code for markers: each marker has one token, the base 64 form of its bytes, and a text that is no
token is refused, for its form or for the bytes that it is the form of. -/
theorem tokens_canonical :
    (∀ marker, decode (encode marker) = .ok marker ∧ Base64.Written (Utf8.encode marker) (encode marker).toList) ∧
    (∀ marker token, decode token = .ok marker ↔ token = encode marker) ∧
    (∀ marker, ∃! token, decode token = .ok marker) ∧
    ∀ token, ((∃ marker, token = encode marker) ∨ ∃ reason, decode token = .error (.invalidArgument reason)) ∧
      (decode token = .error (.invalidArgument "Invalid continuation token") ↔ Base64.Malformed token.toList) ∧
      (decode token = .error (.invalidArgument "Continuation token contains invalid UTF-8") ↔
        ∃ bytes, token = String.ofList (Base64.encode bytes) ∧ ∀ marker, bytes ≠ Utf8.encode marker) := by
  refine ⟨fun marker => ⟨decode_encode marker, ?_⟩, fun _ _ => decode_eq_ok_iff, fun marker => ?_, fun token => ⟨?_, ?_⟩⟩
  · rw [encode, String.toList_ofList]
    exact Base64.encode_written _
  · exact ⟨encode marker, decode_encode marker, fun token h => decode_eq_ok_iff.mp h⟩
  · by_cases h : ∃ marker, token = encode marker
    · exact .inl h
    · exact .inr (refused_of_not_token (not_exists.mp h))
  · exact ⟨decode_eq_malformed_iff, decode_eq_not_text_iff⟩

end ContinuationToken

end BucketStore
