import BucketStore.EntityTag
import BucketStore.Proofs.Blank
import BucketStore.Proofs.Utf8
import Mathlib.Data.List.Forall2

namespace BucketStore

namespace Text.Hex

variable {c : Char} {n : UInt8} {cs : List Char} {bytes : List UInt8}

def pair (b : UInt8) : List Char :=
  ["0123456789abcdef".toList.getD (b.toNat / 16) '0', "0123456789abcdef".toList.getD (b.toNat % 16) '0']

theorem digitValue?_digit (h : n < 16) : digitValue? (digit n) = some n := by
  have hall : ∀ k < 16, digitValue? (digit k.toUInt8) = some k.toUInt8 := by decide
  have hn := hall n.toNat (UInt8.lt_iff_toNat_lt.mp h)
  rwa [show n.toNat.toUInt8 = n from UInt8.ofNat_toNat] at hn

theorem ascii_of_digitValue? (h : digitValue? c = some n) : c.toNat < 128 := by
  rw [digitValue?] at h
  split at h
  · exact ascii_of_le (d := '9') (by decide) (by simp_all)
  · split at h
    · exact ascii_of_le (d := 'f') (by decide) (by simp_all)
    · split at h
      · exact ascii_of_le (d := 'F') (by decide) (by simp_all)
      · cases h

theorem digit_of_digitValue? (h : digitValue? c = some n) : n < 16 ∧ c.toLower = digit n :=
  forall_ascii (P := fun c => ∀ n ∈ digitValue? c, n < 16 ∧ c.toLower = digit n) (by decide +kernel)
    (ascii_of_digitValue? h) n h

theorem digitValue?_toLower (c : Char) : digitValue? c.toLower = digitValue? c := by
  by_cases hc : c.toNat < 128
  · exact forall_ascii (P := fun c => digitValue? c.toLower = digitValue? c) (by decide +kernel) hc
  · have hsame : c.toLower = c := dif_neg (fun hup => hc (ascii_of_le (d := 'Z') (by decide) hup.2))
    rw [hsame]

theorem decode?_map_toLower (cs : List Char) : decode? (cs.map Char.toLower) = decode? cs := by
  induction cs using decode?.induct with
  | case1 => rfl
  | case2 c => rfl
  | case3 h l rest _ _ _ _ _ _ ih => simp only [List.map_cons, decode?, digitValue?_toLower, ih]
  | case4 h l rest _ ih => simp only [List.map_cons, decode?, digitValue?_toLower, ih]

theorem halves_lt (b : UInt8) : b / 16 < 16 ∧ b % 16 < 16 := by
  have hb := b.toNat_lt
  rw [UInt8.lt_iff_toNat_lt, UInt8.lt_iff_toNat_lt, UInt8.toNat_div, UInt8.toNat_mod]
  exact ⟨Nat.div_lt_of_lt_mul hb, Nat.mod_lt _ (by decide)⟩

theorem halves_eq (b : UInt8) : 16 * (b / 16) + b % 16 = b := by
  have hb := b.toNat_lt
  rw [← UInt8.toNat_inj]
  simp only [UInt8.toNat_add, UInt8.toNat_mul, UInt8.toNat_div, UInt8.toNat_mod, UInt8.toNat_ofNat, Nat.reducePow,
    Nat.reduceMod]
  omega

theorem halves_of_digits {h l : UInt8} (hh : h < 16) (hl : l < 16) :
    (16 * h + l) / 16 = h ∧ (16 * h + l) % 16 = l := by
  rw [UInt8.lt_iff_toNat_lt] at hh hl
  rw [← UInt8.toNat_inj, ← UInt8.toNat_inj]
  simp only [UInt8.toNat_add, UInt8.toNat_mul, UInt8.toNat_div, UInt8.toNat_mod, UInt8.toNat_ofNat, Nat.reducePow,
    Nat.reduceMod] at *
  omega

theorem decode?_encode (bytes : List UInt8) : decode? (encode bytes) = some bytes := by
  induction bytes with
  | nil => rfl
  | cons b bytes ih =>
      simp only [encode, decode?, digitValue?_digit (halves_lt b).1, digitValue?_digit (halves_lt b).2, ih, halves_eq]

theorem encode_of_decode? (h : decode? cs = some bytes) : cs.map Char.toLower = encode bytes := by
  induction cs using decode?.induct generalizing bytes with
  | case1 =>
      obtain rfl := Option.some.inj h
      rfl
  | case2 c => cases h
  | case3 h' l' rest h'' l'' bs hbs hl hh ih =>
      rw [decode?, hh, hl, hbs] at h
      obtain rfl := Option.some.inj h
      obtain ⟨hhigh, hhigh'⟩ := digit_of_digitValue? hh
      obtain ⟨hlow, hlow'⟩ := digit_of_digitValue? hl
      rw [List.map_cons, List.map_cons, hhigh', hlow', ih hbs, encode, (halves_of_digits hhigh hlow).1,
        (halves_of_digits hhigh hlow).2]
  | case4 h' l' rest hnone ih =>
      rw [decode?] at h
      split at h
      · exact absurd ‹_› (hnone _ _ _ ‹_› ‹_›)
      · cases h

theorem decode?_eq_some_iff : decode? cs = some bytes ↔ cs.map Char.toLower = encode bytes := by
  refine ⟨encode_of_decode?, fun h => ?_⟩
  rw [← decode?_map_toLower, h, decode?_encode]

theorem digit_eq (h : n < 16) : digit n = "0123456789abcdef".toList.getD n.toNat '0' := by
  have hall : ∀ k < 16, digit k.toUInt8 = "0123456789abcdef".toList.getD k '0' := by decide
  have hn := hall n.toNat (UInt8.lt_iff_toNat_lt.mp h)
  rwa [show n.toNat.toUInt8 = n from UInt8.ofNat_toNat] at hn

theorem encode_eq_flatMap (bytes : List UInt8) : encode bytes = bytes.flatMap pair := by
  induction bytes with
  | nil => rfl
  | cons b bytes ih =>
      rw [encode, List.flatMap_cons, ih, digit_eq (halves_lt b).1, digit_eq (halves_lt b).2, UInt8.toNat_div,
        UInt8.toNat_mod]
      rfl

theorem quote_not_mem_encode (bytes : List UInt8) : '"' ∉ encode bytes := by
  have hdigit : ∀ n < 16, '"' ≠ digit n := by
    intro n hn hquote
    have hvalue := digitValue?_digit hn
    rw [← hquote] at hvalue
    cases hvalue
  induction bytes with
  | nil => exact List.not_mem_nil
  | cons b bytes ih =>
      rw [encode, List.mem_cons, List.mem_cons, not_or, not_or]
      exact ⟨hdigit _ (halves_lt b).1, hdigit _ (halves_lt b).2, ih⟩

end Text.Hex

theorem Md5.length_digest (message : List UInt8) : (Md5.digest message).length = 16 := rfl

namespace EntityTag

open Text

variable {tag : String} {body : List UInt8} {tags : List String} {bodies : List (List UInt8)}

/-- A tag of a body as clients spell it: hex digits in either case, with any quotes around them or without. -/
def Spells (tag : String) (body : List UInt8) : Prop :=
  ∃ front digits back, tag.toList = List.replicate front '"' ++ digits ++ List.replicate back '"' ∧
    digits.map Char.toLower = (Md5.digest body).flatMap Hex.pair

theorem digest?_of_spells (h : Spells tag body) : digest? tag = some (Md5.digest body) := by
  obtain ⟨front, digits, back, htag, hdigits⟩ := h
  rw [← Hex.encode_eq_flatMap] at hdigits
  have hquote : ∀ c ∈ digits, (c == '"') = false := by
    rintro c hc
    rw [beq_eq_false_iff_ne]
    rintro rfl
    have hmem : '"' ∈ digits.map Char.toLower := List.mem_map_of_mem (f := Char.toLower) hc
    rw [hdigits] at hmem
    exact Hex.quote_not_mem_encode _ hmem
  rw [digest?, htag, trim_eq, Hex.decode?_eq_some_iff, hdigits]
  · simp
  · simp
  · exact fun c hc => hquote c (List.mem_of_mem_head? hc)
  · exact fun c hc => hquote c (List.mem_of_mem_getLast? hc)

theorem spells_ofBody (body : List UInt8) : Spells (ofBody body) body := by
  refine ⟨1, Hex.encode (Md5.digest body), 1, by simp [ofBody, hexDigest], ?_⟩
  rw [← Hex.encode_eq_flatMap]
  exact Hex.encode_of_decode? (Hex.decode?_encode _)

theorem map_digest? (h : List.Forall₂ Spells tags bodies) :
    tags.map digest? = bodies.map (fun body => some (Md5.digest body)) := by
  induction h with
  | nil => rfl
  | cons htag _ ih => rw [List.map_cons, List.map_cons, digest?_of_spells htag, ih]

theorem filterMap_digest? (h : List.Forall₂ Spells tags bodies) :
    tags.filterMap digest? = bodies.map Md5.digest := by
  induction h with
  | nil => rfl
  | cons htag _ ih => rw [List.filterMap_cons_some (digest?_of_spells htag), List.map_cons, ih]

theorem length_digests (bodies : List (List UInt8)) : (bodies.flatMap Md5.digest).length = 16 * bodies.length := by
  induction bodies with
  | nil => rfl
  | cons body bodies ih =>
      rw [List.flatMap_cons, List.length_append, Md5.length_digest, ih, List.length_cons]
      omega

theorem digest_at {i : Nat} (h : bodies[i]? = some body) :
    ((bodies.flatMap Md5.digest).drop (16 * i)).take 16 = Md5.digest body := by
  obtain ⟨front, back, rfl, rfl⟩ : ∃ front back, bodies = front ++ body :: back ∧ i = front.length := by
    obtain ⟨hi, rfl⟩ := List.getElem?_eq_some_iff.mp h
    exact ⟨bodies.take i, bodies.drop (i + 1), by simp, by simp; omega⟩
  rw [List.flatMap_append, List.flatMap_cons, ← length_digests, List.drop_left, ← Md5.length_digest body,
    List.take_left]

/-- Quotes around the digits of the digest of all digests, and around the number of parts behind a dash. -/
def compositeOf (bodies : List (List UInt8)) : String :=
  "\"" ++ String.ofList ((Md5.digest (bodies.flatMap Md5.digest)).flatMap Hex.pair) ++ "-" ++
    toString bodies.length ++ "\""

theorem composite_of_spells (h : List.Forall₂ Spells tags bodies) : composite tags = compositeOf bodies := by
  rw [composite, compositeOf, filterMap_digest? h, h.length_eq, hexDigest, Hex.encode_eq_flatMap, List.flatMap_def]
  rfl

/-- The tag of an assembled object is that of its parts' bodies, however the tags of the parts are spelled: each part
adds the sixteen bytes of its digest, at its place. -/
theorem composite_exact (bodies : List (List UInt8)) :
    composite (bodies.map ofBody) = compositeOf bodies ∧
    (∀ tags, List.Forall₂ Spells tags bodies → composite tags = compositeOf bodies ∧
      tags.map digest? = bodies.map (fun body => some (Md5.digest body))) ∧
    (bodies.flatMap Md5.digest).length = 16 * bodies.length ∧
    ∀ i body, bodies[i]? = some body → ((bodies.flatMap Md5.digest).drop (16 * i)).take 16 = Md5.digest body := by
  have hown : List.Forall₂ Spells (bodies.map ofBody) bodies := by
    rw [List.forall₂_map_left_iff]
    exact List.forall₂_same.mpr (fun body _ => spells_ofBody body)
  exact ⟨composite_of_spells hown, fun tags h => ⟨composite_of_spells h, map_digest? h⟩, length_digests bodies,
    fun i body => digest_at⟩

theorem composite_of_upper_case :
    List.Forall₂ Spells ["D41D8CD98F00B204E9800998ECF8427E", "\"0cc175b9c0f1b6a831c399e269772661\""] [[], [97]] ∧
    composite ["D41D8CD98F00B204E9800998ECF8427E", "\"0cc175b9c0f1b6a831c399e269772661\""] =
      "\"68083ea43d0307eecfa2b4749f19df15-2\"" := by
  have hspells : List.Forall₂ Spells ["D41D8CD98F00B204E9800998ECF8427E", "\"0cc175b9c0f1b6a831c399e269772661\""]
      [[], [97]] :=
    .cons ⟨0, "D41D8CD98F00B204E9800998ECF8427E".toList, 0, by decide, by decide +kernel⟩
      (.cons ⟨1, "0cc175b9c0f1b6a831c399e269772661".toList, 1, by decide, by decide +kernel⟩ .nil)
  have hcomposite : compositeOf [[], [97]] = "\"68083ea43d0307eecfa2b4749f19df15-2\"" := by decide +kernel
  exact ⟨hspells, (((composite_exact [[], [97]]).2.1 _ hspells).1).trans hcomposite⟩

end EntityTag

end BucketStore
