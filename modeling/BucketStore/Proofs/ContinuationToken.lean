import BucketStore.ContinuationToken
import BucketStore.Proofs.Utf8
import Mathlib.Data.Nat.Basic

namespace BucketStore

namespace Text.Base64

variable {w x y z : Nat} {rest : List Char}

theorem value?_char : ∀ n < 64, value? (char n) = some n := by decide

theorem char_ne_fill : ∀ n < 64, char n ≠ '=' := by decide

theorem decodeLast?_one (hw : w < 64) (hx : x < 64) (hfill : x % 16 = 0) :
    decodeLast? (char w) (char x) '=' '=' = some [(w * 4 + x / 16).toUInt8] := by
  simp only [decodeLast?, if_pos, value?_char w hw, value?_char x hx, hfill]

theorem decodeLast?_two (hw : w < 64) (hx : x < 64) (hy : y < 64) (hfill : y % 4 = 0) :
    decodeLast? (char w) (char x) (char y) '=' =
      some [(w * 4 + x / 16).toUInt8, (x % 16 * 16 + y / 4).toUInt8] := by
  simp only [decodeLast?, if_pos, if_neg (char_ne_fill y hy), value?_char w hw, value?_char x hx, value?_char y hy,
    hfill]

theorem decodeLast?_three (hw : w < 64) (hx : x < 64) (hy : y < 64) (hz : z < 64) :
    decodeLast? (char w) (char x) (char y) (char z) =
      some [(w * 4 + x / 16).toUInt8, (x % 16 * 16 + y / 4).toUInt8, (y % 4 * 64 + z).toUInt8] := by
  simp only [decodeLast?, if_neg (char_ne_fill z hz), value?_char w hw, value?_char x hx, value?_char y hy,
    value?_char z hz]

theorem decode?_group (hw : w < 64) (hx : x < 64) (hy : y < 64) (hz : z < 64) :
    decode? (char w :: char x :: char y :: char z :: rest) = (decode? rest).map (fun bytes =>
      (w * 4 + x / 16).toUInt8 :: (x % 16 * 16 + y / 4).toUInt8 :: (y % 4 * 64 + z).toUInt8 :: bytes) := by
  cases rest with
  | nil => exact decodeLast?_three hw hx hy hz
  | cons c rest =>
      simp only [decode?, value?_char w hw, value?_char x hx, value?_char y hy, value?_char z hz]
      cases decode? (c :: rest) <;> rfl

theorem toUInt8_eq {n : Nat} {a : UInt8} (h : n = a.toNat) : n.toUInt8 = a := by
  rw [h]
  exact UInt8.ofNat_toNat

theorem decode?_encode (bytes : List UInt8) : decode? (encode bytes) = some bytes := by
  induction bytes using encode.induct with
  | case1 => rfl
  | case2 a =>
      have ha := a.toNat_lt
      rw [encode]
      refine (decodeLast?_one (by omega) (by omega) (by omega)).trans ?_
      rw [toUInt8_eq (a := a) (by omega)]
  | case3 a b =>
      have ha := a.toNat_lt
      have hb := b.toNat_lt
      rw [encode]
      refine (decodeLast?_two (by omega) (by omega) (by omega) (by omega)).trans ?_
      rw [toUInt8_eq (a := a) (by omega), toUInt8_eq (a := b) (by omega)]
  | case4 a b c rest ih =>
      have ha := a.toNat_lt
      have hb := b.toNat_lt
      have hc := c.toNat_lt
      rw [encode, decode?_group (by omega) (by omega) (by omega) (by omega), ih, Option.map_some,
        toUInt8_eq (a := a) (by omega), toUInt8_eq (a := b) (by omega), toUInt8_eq (a := c) (by omega)]

end Text.Base64

namespace ContinuationToken

open Text

theorem decode_encode (marker : String) : decode (encode marker) = .ok marker := by
  rw [decode, encode, String.toList_ofList, Base64.decode?_encode]
  dsimp only
  rw [Utf8.decode?_encode]

end ContinuationToken

end BucketStore
