import BucketStore.Text.Utf8

namespace BucketStore.Text

theorem forall_ascii {P : Char → Prop} {c : Char} (h : ∀ k < 128, P (Char.ofNat k)) (hc : c.toNat < 128) : P c := by
  have hk := h c.toNat hc
  rwa [Char.ofNat_toNat] at hk

theorem ascii_of_le {c d : Char} (hd : d.toNat < 128) (h : c ≤ d) : c.toNat < 128 :=
  Nat.lt_of_le_of_lt h hd

namespace Utf8

section Characters

variable {n : Nat} {front target : List Char}

theorem size_cons (c : Char) (cs : List Char) : size (c :: cs) = c.utf8Size + size cs := by
  have hfrom : ∀ n, cs.foldl (fun n c => n + c.utf8Size) n = n + size cs := by
    unfold size
    induction cs with
    | nil => exact fun n => rfl
    | cons d cs ih =>
        intro n
        rw [List.foldl_cons, List.foldl_cons, ih, ih (0 + _), Nat.zero_add, Nat.add_assoc]
  rw [← hfrom, size, List.foldl_cons, Nat.zero_add]

theorem size_of_ascii (hascii : ∀ c ∈ target, c.utf8Size = 1) : size target = target.length := by
  induction target with
  | nil => rfl
  | cons c target ih =>
      rw [size_cons, hascii c List.mem_cons_self, ih fun x hx => hascii x (List.mem_cons_of_mem _ hx),
        List.length_cons, Nat.add_comm]

theorem drop_zero (cs : List Char) : drop 0 cs = cs := by
  cases cs <;> rfl

theorem take_zero (cs : List Char) : take 0 cs = [] := by
  cases cs <;> rfl

theorem drop_add (c : Char) (n : Nat) (cs : List Char) : drop (c.utf8Size + n) (c :: cs) = drop n cs := by
  obtain ⟨m, hm⟩ := Nat.exists_eq_succ_of_ne_zero (Nat.ne_of_gt c.utf8Size_pos)
  have hsum : c.utf8Size + n = m + n + 1 := by omega
  rw [hsum, drop]
  congr 1
  omega

theorem take_add (c : Char) (n : Nat) (cs : List Char) : take (c.utf8Size + n) (c :: cs) = c :: take n cs := by
  obtain ⟨m, hm⟩ := Nat.exists_eq_succ_of_ne_zero (Nat.ne_of_gt c.utf8Size_pos)
  have hsum : c.utf8Size + n = m + n + 1 := by omega
  rw [hsum, take]
  congr 2
  omega

theorem drop_size (front rest : List Char) : drop (size front) (front ++ rest) = rest := by
  induction front with
  | nil => exact drop_zero rest
  | cons c front ih => rw [size_cons, List.cons_append, drop_add, ih]

theorem take_size (front rest : List Char) : take (size front) (front ++ rest) = front := by
  induction front with
  | nil => exact take_zero rest
  | cons c front ih => rw [size_cons, List.cons_append, take_add, ih]

theorem exists_drop_of_lt (hascii : ∀ c ∈ target, c.utf8Size = 1) (hn : n < target.length) (front rest : List Char) :
    ∃ x back, drop n (front ++ (target ++ rest)) = x :: (back ++ rest) := by
  induction front generalizing n with
  | nil =>
      rw [List.nil_append]
      induction target generalizing n with
      | nil => cases hn
      | cons c target ih =>
          cases n with
          | zero => exact ⟨c, target, rfl⟩
          | succ n =>
              rw [List.cons_append, drop, hascii c List.mem_cons_self]
              exact ih (fun x hx => hascii x (List.mem_cons_of_mem _ hx)) (Nat.lt_of_succ_lt_succ hn)
  | cons y front ih =>
      cases n with
      | zero => exact ⟨y, front ++ target, by simp [drop_zero]⟩
      | succ n => exact ih (n := n + 1 - y.utf8Size) (by omega)

theorem exists_drop (hascii : ∀ c ∈ target, c.utf8Size = 1) (hne : front ≠ []) (rest : List Char) :
    ∃ x back, drop (size target) (front ++ (target ++ rest)) = x :: (back ++ rest) := by
  obtain ⟨y, front, rfl⟩ := List.exists_cons_of_ne_nil hne
  rw [size_of_ascii hascii]
  cases hlength : target.length with
  | zero =>
      obtain rfl := List.length_eq_zero_iff.mp hlength
      exact ⟨y, front, rfl⟩
  | succ n =>
      have hy := y.utf8Size_pos
      exact exists_drop_of_lt hascii (n := n + 1 - y.utf8Size) (by omega) front rest

end Characters

variable {s t key pattern : String} {bytes front back : List UInt8}

theorem decode?_encode (s : String) : decode? (encode s) = some s := by
  rw [decode?, encode, Array.toArray_toList, String.fromUTF8?, dif_pos s.isValidUTF8]
  rfl

theorem decode?_eq_some_iff : decode? bytes = some s ↔ bytes = encode s := by
  constructor
  · intro h
    rw [decode?, String.fromUTF8?] at h
    split at h
    · obtain rfl := Option.some.inj h
      rfl
    · cases h
  · rintro rfl
    exact decode?_encode s

theorem encode_inj : encode s = encode t ↔ s = t := by
  refine ⟨fun h => ?_, congrArg encode⟩
  have hsame := decode?_encode s
  rw [h, decode?_encode] at hsame
  exact (Option.some.inj hsame).symm

theorem encode_append (s t : String) : encode (s ++ t) = encode s ++ encode t := by
  simp [encode]

theorem length_encode (s : String) : (encode s).length = s.utf8ByteSize := by
  simp [encode]

theorem extract_toList (s : String) (i j : Nat) :
    (s.toByteArray.extract i j).data.toList = ((encode s).drop i).take (j - i) := by
  rw [ByteArray.data_extract, Array.toList_extract, List.extract_eq_take_drop]
  rfl

/-- The bytes of a text begin where one of its characters does and end where one does. So where they stand among the
bytes of another text, what is in front of them and what is behind them are texts as well. -/
theorem exists_texts_around (hp : pattern ≠ "") (h : encode key = front ++ encode pattern ++ back) :
    ∃ s t, key = s ++ pattern ++ t ∧ encode s = front ∧ encode t = back := by
  have hsize : key.utf8ByteSize = front.length + pattern.utf8ByteSize + back.length := by
    rw [← length_encode, h, List.length_append, List.length_append, length_encode]
  have hbytes : key.toByteArray.extract front.length (front.length + pattern.utf8ByteSize) = pattern.toByteArray := by
    apply ByteArray.ext
    apply Array.toList_inj.mp
    rw [extract_toList, h, List.append_assoc, List.drop_left, Nat.add_sub_cancel_left, ← length_encode, List.take_left]
    rfl
  have hends : (String.Pos.Raw.mk front.length).IsValid key ∧
      (String.Pos.Raw.mk (front.length + pattern.utf8ByteSize)).IsValid key := by
    have hvalid : (key.toByteArray.extract front.length (front.length + pattern.utf8ByteSize)).IsValidUTF8 := by
      rw [hbytes]
      exact pattern.isValidUTF8
    refine ((String.Pos.Raw.isValidUTF8_extract_iff ⟨front.length⟩ ⟨_⟩ ?_ ?_).mp hvalid).resolve_left ?_
    · simp [String.Pos.Raw.le_iff]
    · simp [String.Pos.Raw.le_iff, hsize]
    · simpa [String.Pos.Raw.ext_iff] using hp
  obtain ⟨hbegin, hend⟩ := hends
  let s : String := ⟨_, hbegin.isValidUTF8_extract_zero⟩
  let t : String := ⟨_, hend.isValidUTF8_extract_utf8ByteSize⟩
  have hs : encode s = front := by
    refine (extract_toList key 0 front.length).trans ?_
    rw [h, List.append_assoc, List.drop_zero, Nat.sub_zero, List.take_left]
  have ht : encode t = back := by
    refine (extract_toList key (front.length + pattern.utf8ByteSize) key.utf8ByteSize).trans ?_
    rw [h, hsize, Nat.add_sub_cancel_left, ← length_encode, ← List.length_append, List.drop_left, List.take_length]
  refine ⟨s, t, encode_inj.mp ?_, hs, ht⟩
  rw [encode_append, encode_append, hs, ht, h]

theorem exists_text_behind (h : encode key = encode s ++ back) : ∃ t, key = s ++ t ∧ encode t = back := by
  by_cases hs : s = ""
  · exact ⟨key, by simp [hs], by rw [h, hs]; rfl⟩
  · have hfront : encode key = [] ++ encode s ++ back := by rw [h, List.nil_append]
    obtain ⟨r, t, hkey, hr, ht⟩ := exists_texts_around hs hfront
    obtain rfl : r = "" := encode_inj.mp hr
    exact ⟨t, by rw [hkey, String.empty_append], ht⟩

end Utf8

end BucketStore.Text
