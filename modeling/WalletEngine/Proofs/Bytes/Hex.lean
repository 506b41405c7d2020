import WalletEngine.Bytes.Hex

/-! # Which texts are hexadecimal

A text is read as bytes exactly if its letters are, up to their case, the digits that are written for
these bytes. So an odd number of digits, a character beyond ASCII, or a digit too few or too many never
goes unseen. Some bytes of a given number are read exactly from twice as many digits of ASCII.
-/

namespace WalletEngine.Hex

/-- The numbers that the digits of a byte string stand for. -/
def nibbles (bs : Bytes) : List Nat := bs.flatMap fun b => [b.toNat / 16, b.toNat % 16]

theorem nibbles_cons (b : UInt8) (bs : Bytes) :
    nibbles (b :: bs) = b.toNat / 16 :: b.toNat % 16 :: nibbles bs := rfl

theorem length_nibbles (bs : Bytes) : (nibbles bs).length = 2 * bs.length := by
  induction bs with
  | nil => rfl
  | cons b bs ih =>
      rw [nibbles_cons, List.length_cons, List.length_cons, List.length_cons, ih]
      omega

theorem nibbles_lt {bs : Bytes} {n : Nat} (h : n ∈ nibbles bs) : n < 16 := by
  obtain ⟨b, -, hn⟩ := List.mem_flatMap.mp h
  have hb := b.toNat_lt
  simp only [List.mem_cons, List.not_mem_nil, or_false] at hn
  omega

theorem toList_encode (bs : Bytes) : (encode bs).toList = (nibbles bs).map digit := by
  rw [encode, String.toList_ofList, nibbles, List.map_flatMap]
  rfl

/-! ## Pairs of digits -/

theorem value?_lt {b : UInt8} {n : Nat} (h : value? b = some n) : n < 16 := by
  simp only [value?, Bool.and_eq_true, decide_eq_true_eq] at h
  split at h
  next => cases h; omega
  split at h
  next => cases h; omega
  split at h
  next => cases h; omega
  next => cases h

/-- A byte is told by its two digits. -/
theorem eq_ofNat_iff {b : UInt8} {h l : Nat} (hh : h < 16) (hl : l < 16) :
    UInt8.ofNat (16 * h + l) = b ↔ h = b.toNat / 16 ∧ l = b.toNat % 16 := by
  have hb := b.toNat_lt
  rw [← UInt8.toNat_inj, UInt8.toNat_ofNat']
  omega

theorem decodePairs_eq_ok_iff {index : Nat} {bytes bs : Bytes} (heven : bytes.length % 2 = 0) :
    decodePairs index bytes = .ok bs ↔ bytes.map value? = (nibbles bs).map some := by
  induction index, bytes using decodePairs.induct generalizing bs with
  | case1 index hi lo rest hnone =>
      rw [decodePairs, hnone]
      cases bs with
      | nil => simp [nibbles]
      | cons b bs => simp [nibbles_cons, hnone]
  | case2 index hi lo rest h hnone hhi =>
      rw [decodePairs, hhi, hnone]
      cases bs with
      | nil => simp [nibbles]
      | cons b bs => simp [nibbles_cons, hnone]
  | case3 index hi lo rest h l hlo hhi ih =>
      have hrest : rest.length % 2 = 0 := by
        simp only [List.length_cons] at heven
        omega
      rw [decodePairs, hhi, hlo]
      dsimp only
      cases bs with
      | nil => cases decodePairs (index + 2) rest <;> simp [nibbles, Functor.map, Except.map]
      | cons b bs =>
          have hpair := eq_ofNat_iff (b := b) (value?_lt hhi) (value?_lt hlo)
          have htail : decodePairs (index + 2) rest = .ok bs ↔
              rest.map value? = (nibbles bs).map some := ih hrest
          rw [List.map_cons, List.map_cons, nibbles_cons, List.map_cons, List.map_cons, hhi, hlo,
            List.cons.injEq, List.cons.injEq, Option.some.injEq, Option.some.injEq, ← htail,
            ← and_assoc, ← hpair]
          cases decodePairs (index + 2) rest <;> simp [Functor.map, Except.map]
  | case4 bytes index hshort =>
      -- What holds no pair is empty, as a single byte would be odd.
      obtain rfl : bytes = [] := by
        rcases bytes with _ | ⟨hi, _ | ⟨lo, rest⟩⟩
        · rfl
        · cases heven
        · exact (hshort hi lo rest rfl).elim
      cases bs with
      | nil => simp [decodePairs, nibbles]
      | cons b bs => simp [decodePairs, nibbles_cons]

/-! ## Characters -/

/-- A character of ASCII has the value of the digit that it is in lowercase. -/
theorem value?_eq_some_iff {c : Char} (hc : c.toNat < 128) {n : Nat} (hn : n < 16) :
    value? (UInt8.ofNat c.toNat) = some n ↔ c.toLower = digit n := by
  have all : ∀ (k : Fin 128) (n : Fin 16),
      value? (UInt8.ofNat k) = some n.val ↔ (Char.ofNat k).toLower = digit n := by decide +kernel
  have h := all ⟨c.toNat, hc⟩ ⟨n, hn⟩
  rwa [Char.ofNat_toNat] at h

theorem digit_lt {n : Nat} (hn : n < 16) : (digit n).toNat < 128 := by
  have all : ∀ n : Fin 16, (digit n).toNat < 128 := by decide
  exact all ⟨n, hn⟩

theorem utf8EncodeChar_of_lt {c : Char} (hc : c.toNat < 128) :
    String.utf8EncodeChar c = [UInt8.ofNat c.toNat] := by
  have hval : c.val.toNat ≤ 0x7f := Nat.le_of_lt_succ hc
  simp only [String.utf8EncodeChar, if_pos hval]
  rfl

/-- The bytes of a character beyond ASCII start with one that is no digit. -/
theorem utf8EncodeChar_of_le {c : Char} (hc : 128 ≤ c.toNat) :
    ∃ b bytes, String.utf8EncodeChar c = b :: bytes ∧ value? b = none := by
  have hhigh {b : UInt8} (hb : 128 ≤ b.toNat) : value? b = none := by
    simp only [value?, Bool.and_eq_true, decide_eq_true_eq]
    rw [if_neg (by omega), if_neg (by omega), if_neg (by omega)]
  have hval : ¬c.val.toNat ≤ 0x7f := Nat.not_le.mpr (Nat.lt_of_succ_le hc)
  simp only [String.utf8EncodeChar, if_neg hval]
  split
  next =>
    refine ⟨_, _, rfl, hhigh ?_⟩
    rw [UInt8.toNat_ofNat']
    omega
  split
  next =>
    refine ⟨_, _, rfl, hhigh ?_⟩
    rw [UInt8.toNat_ofNat']
    omega
  next =>
    refine ⟨_, _, rfl, hhigh ?_⟩
    rw [UInt8.toNat_ofNat']
    omega

theorem toLower_of_le {c : Char} (hc : 128 ≤ c.toNat) : c.toLower = c := by
  have hletter : ¬(c.val ≥ 'A'.val ∧ c.val ≤ 'Z'.val) := by
    rintro ⟨-, hz⟩
    have hz' : c.toNat ≤ 90 := UInt32.le_iff_toNat_le.mp hz
    omega
  exact dif_neg hletter

/-- The bytes of characters have the values of the digits that the characters are in lowercase. -/
theorem map_value?_eq_iff {cs : List Char} {ns : List Nat} (hns : ∀ n ∈ ns, n < 16) :
    (cs.flatMap String.utf8EncodeChar).map value? = ns.map some ↔
      cs.map Char.toLower = ns.map digit := by
  induction cs generalizing ns with
  | nil => cases ns <;> simp
  | cons c cs ih =>
      cases ns with
      | nil =>
          obtain ⟨b, bytes, hb⟩ := List.exists_cons_of_ne_nil (String.utf8EncodeChar_ne_nil (c := c))
          simp [hb]
      | cons n ns =>
          have hn : n < 16 := hns n List.mem_cons_self
          have htail := ih fun k hk => hns k (List.mem_cons_of_mem n hk)
          rcases Nat.lt_or_ge c.toNat 128 with hascii | hbeyond
          · rw [List.flatMap_cons, utf8EncodeChar_of_lt hascii, List.singleton_append,
              List.map_cons, List.map_cons, List.map_cons, List.map_cons, List.cons.injEq,
              List.cons.injEq, value?_eq_some_iff hascii hn, htail]
          · obtain ⟨b, bytes, hb, hnone⟩ := utf8EncodeChar_of_le hbeyond
            have hdigit : c ≠ digit n := by
              rintro rfl
              exact absurd (digit_lt hn) (Nat.not_lt.mpr hbeyond)
            simp [hb, hnone, toLower_of_le hbeyond, hdigit]

theorem toList_toLower (s : String) : s.toLower.toList = s.toList.map Char.toLower :=
  String.toList_map

theorem toLower_eq_encode_iff {s : String} {bs : Bytes} :
    s.toLower = encode bs ↔ s.toList.map Char.toLower = (nibbles bs).map digit := by
  rw [← toList_encode, ← String.toList_inj, toList_toLower]

/-- A text is read as bytes exactly if it is, up to the case of its letters, what is written for
them. -/
theorem decode_eq_ok_iff {s : String} {bs : Bytes} :
    decode s = .ok bs ↔ s.toLower = encode bs := by
  have hvalues : (Bytes.ofText s).map value? = (nibbles bs).map some ↔
      s.toList.map Char.toLower = (nibbles bs).map digit :=
    map_value?_eq_iff fun n hn => nibbles_lt hn
  rw [toLower_eq_encode_iff, ← hvalues, decode]
  change (if (Bytes.ofText s).length % 2 = 1 then _ else _) = _ ↔ (Bytes.ofText s).map value? = _
  split
  next hodd =>
    -- The digits of bytes come in pairs, so they are even in number.
    refine ⟨by rintro ⟨⟩, fun h => ?_⟩
    have hlength := length_nibbles bs
    have heq := congrArg List.length h
    rw [List.length_map, List.length_map, hlength] at heq
    omega
  next hnot => exact decodePairs_eq_ok_iff (by omega)

/-! ## Digits in either case -/

/-- A hexadecimal digit of ASCII, in either case. -/
def IsDigit (c : Char) : Prop :=
  ('0' ≤ c ∧ c ≤ '9') ∨ ('a' ≤ c ∧ c ≤ 'f') ∨ ('A' ≤ c ∧ c ≤ 'F')

instance : DecidablePred IsDigit := fun _ => inferInstanceAs (Decidable (_ ∨ _ ∨ _))

theorem not_isDigit_of_le {c : Char} (hc : 128 ≤ c.toNat) : ¬IsDigit c := by
  have above {d : Char} (hd : d.toNat < 128) (hle : c ≤ d) : False := by
    have hle' : c.toNat ≤ d.toNat := UInt32.le_iff_toNat_le.mp hle
    omega
  rintro (⟨-, h⟩ | ⟨-, h⟩ | ⟨-, h⟩) <;> exact above (by decide) h

theorem isDigit_iff {c : Char} : IsDigit c ↔ ∃ n < 16, c.toLower = digit n := by
  have all : ∀ k : Fin 128, IsDigit (Char.ofNat k) ↔
      ∃ n : Fin 16, (Char.ofNat k).toLower = digit n := by decide +kernel
  rcases Nat.lt_or_ge c.toNat 128 with hascii | hbeyond
  · have h := all ⟨c.toNat, hascii⟩
    rw [Char.ofNat_toNat] at h
    rw [h, Fin.exists_iff]
    simp only [exists_prop]
  · rw [toLower_of_le hbeyond]
    refine iff_of_false (not_isDigit_of_le hbeyond) ?_
    rintro ⟨n, hn, rfl⟩
    exact absurd (digit_lt hn) (Nat.not_lt.mpr hbeyond)

/-- Numbers below sixteen, two for each byte, are those of some bytes. -/
theorem exists_nibbles {count : Nat} {ns : List Nat} (hlength : ns.length = 2 * count)
    (hns : ∀ n ∈ ns, n < 16) : ∃ bs, nibbles bs = ns := by
  induction count generalizing ns with
  | zero => exact ⟨[], (List.eq_nil_of_length_eq_zero hlength).symm⟩
  | succ count ih =>
      match ns, hlength with
      | hi :: lo :: rest, hlength =>
        obtain ⟨hhi, hlo, hrest⟩ : hi < 16 ∧ lo < 16 ∧ ∀ n ∈ rest, n < 16 := by simpa using hns
        obtain ⟨bs, rfl⟩ := ih (by simpa [Nat.mul_succ] using hlength) hrest
        have hbyte := (eq_ofNat_iff hhi hlo).mp rfl
        exact ⟨UInt8.ofNat (16 * hi + lo) :: bs, by rw [nibbles_cons, ← hbyte.1, ← hbyte.2]⟩

theorem exists_map_digit_iff {cs : List Char} :
    (∃ ns : List Nat, (∀ n ∈ ns, n < 16) ∧ cs.map Char.toLower = ns.map digit) ↔
      ∀ c ∈ cs, IsDigit c := by
  constructor
  · rintro ⟨ns, hns, hmap⟩ c hc
    have hmem : c.toLower ∈ ns.map digit := hmap ▸ List.mem_map_of_mem hc
    obtain ⟨n, hn, heq⟩ := List.mem_map.mp hmem
    exact isDigit_iff.mpr ⟨n, hns n hn, heq.symm⟩
  · intro h
    induction cs with
    | nil => exact ⟨[], by simp⟩
    | cons c cs ih =>
        obtain ⟨hc, hcs⟩ := List.forall_mem_cons.mp h
        obtain ⟨n, hn, hdigit⟩ := isDigit_iff.mp hc
        obtain ⟨ns, hns, hmap⟩ := ih hcs
        exact ⟨n :: ns, List.forall_mem_cons.mpr ⟨hn, hns⟩, by simp [hdigit, hmap]⟩

/-- A text stands for some number of bytes exactly if it has two digits for each of them and nothing
else. -/
theorem exists_decode_iff {s : String} {count : Nat} :
    (∃ bs, bs.length = count ∧ decode s = .ok bs) ↔
      s.length = 2 * count ∧ ∀ c ∈ s.toList, IsDigit c := by
  simp only [decode_eq_ok_iff, toLower_eq_encode_iff]
  constructor
  · rintro ⟨bs, rfl, hmap⟩
    have hlength := congrArg List.length hmap
    rw [List.length_map, List.length_map, length_nibbles, String.length_toList] at hlength
    exact ⟨hlength, exists_map_digit_iff.mp ⟨nibbles bs, fun n hn => nibbles_lt hn, hmap⟩⟩
  · rintro ⟨hlength, hdigits⟩
    obtain ⟨ns, hns, hmap⟩ := exists_map_digit_iff.mpr hdigits
    have hcount : ns.length = 2 * count := by
      rw [← hlength, ← String.length_toList, ← List.length_map Char.toLower, hmap, List.length_map]
    obtain ⟨bs, rfl⟩ := exists_nibbles hcount hns
    refine ⟨bs, ?_, hmap⟩
    rw [length_nibbles] at hcount
    omega

end WalletEngine.Hex
