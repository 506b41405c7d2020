import Mathlib.Algebra.Group.Nat.Defs
import WalletEngine.Time.InstantReader
import WalletEngine.Proofs.Steps

/-! # Instants are read back

The reader of instants is lenient, the writer is not: whatever the writer puts down, for any year and
any fraction of a second, the reader takes part by part and gives back the same instant.
-/

namespace WalletEngine.Time

open Steps

/-! ## Padded numbers -/

theorem padded_eq (width n : Nat) :
    padded width n =
      List.replicate (width - (Nat.toDigits 10 n).length) '0' ++ Nat.toDigits 10 n := by
  simp only [padded, toString, Nat.toList_repr]

theorem isDigit_padded {width n : Nat} {c : Char} (hc : c ∈ padded width n) : c.isDigit = true := by
  rw [padded_eq] at hc
  rcases List.mem_append.mp hc with hc | hc
  · rw [List.eq_of_mem_replicate hc]
    rfl
  · exact Nat.isDigit_of_mem_toDigits (by decide) (by decide) hc

theorem length_padded {width n : Nat} (hwidth : 0 < width) (hn : n < 10 ^ width) :
    (padded width n).length = width := by
  have hlength := (Nat.length_toDigits_le_iff (by decide : 1 < 10) hwidth).mpr hn
  rw [padded_eq, List.length_append, List.length_replicate]
  omega

theorem padded_ne_nil (width n : Nat) : padded width n ≠ [] := by
  rw [padded_eq]
  simp [Nat.toDigits_ne_nil]

namespace StampReader

theorem value_padded (width n : Nat) : value (padded width n) = n := by
  have hvalue : value (padded width n) = Nat.ofDigitChars 10 (padded width n) 0 := by
    rw [value, Nat.ofDigitChars_eq_foldl]
    rfl
  rw [hvalue, padded_eq, Nat.ofDigitChars_append, Nat.ofDigitChars_replicate_zero, Nat.mul_zero,
    Nat.ofDigitChars_ten_toDigits]

/-! ## The parts of an instant -/

/-- No digit is next. -/
def NoDigit (rest : List Char) : Prop := ∀ c ∈ rest.head?, c.isDigit = false

theorem takeWhile_digits {ds rest : List Char} (hds : ∀ c ∈ ds, c.isDigit = true)
    (hrest : NoDigit rest) : (ds ++ rest).takeWhile Char.isDigit = ds := by
  have hnone : rest.takeWhile Char.isDigit = [] := by
    cases rest with
    | nil => rfl
    | cons c rest => rw [List.takeWhile_cons_of_neg (by simp [hrest c rfl])]
  rw [List.takeWhile_append_of_pos hds, hnone, List.append_nil]

/-- Digits within the width, up to something else or to the width. -/
theorem number_digits {width : Nat} {ds : List Char} (rest : List Char)
    (hds : ∀ c ∈ ds, c.isDigit = true) (hne : ds ≠ []) (hwidth : ds.length ≤ width) (hend : ds.length = width ∨ NoDigit rest)
    (hfit : (value ds : Int) ≤ Int64.maxValue.toInt) :
    number width (ds ++ rest) = .ok (value ds, rest) := by
  have htake : ((ds ++ rest).take width).takeWhile Char.isDigit = ds := by
    rw [List.take_append, List.take_of_length_le hwidth]
    refine takeWhile_digits hds ?_
    rcases hend with rfl | hrest
    · simp [NoDigit]
    · intro c hc
      refine hrest c ?_
      cases hcount : width - ds.length with
      | zero => simp [hcount] at hc
      | succ k =>
          rw [hcount] at hc
          cases rest with
          | nil => simp at hc
          | cons d rest => simpa using hc
  have htext : (ds ++ rest).isEmpty = false := by simp [hne]
  have hdigits : ds.isEmpty = false := by simp [hne]
  rw [number, bind_of_ok (get_apply _)]
  simp only [htake, htext, hdigits, Bool.false_eq_true, if_false, Int.not_lt.mpr hfit]
  rw [List.drop_left]
  rfl

theorem isBlank_of_isDigit {c : Char} (hc : c.isDigit = true) : Text.isBlank c = false := by
  obtain ⟨hlow, hhigh⟩ := Char.isDigit_iff_toNat.mp hc
  change 48 ≤ c.toNat at hlow
  change c.toNat ≤ 57 at hhigh
  simp only [Text.isBlank, Bool.or_eq_false_iff, Bool.and_eq_false_iff, decide_eq_false_iff_not,
    beq_eq_false_iff_ne]
  omega

theorem blanks_cons {c : Char} (hc : Text.isBlank c = false) (rest : List Char) :
    blanks (c :: rest) = .ok ((), c :: rest) := by
  change Except.ok ((), (c :: rest).dropWhile Text.isBlank) = _
  rw [List.dropWhile_cons_of_neg (by simp [hc])]

theorem blanks_padded (width n : Nat) (rest : List Char) :
    blanks (padded width n ++ rest) = .ok ((), padded width n ++ rest) := by
  obtain ⟨c, cs, hcons⟩ := List.exists_cons_of_ne_nil (padded_ne_nil width n)
  have hc : c.isDigit = true := isDigit_padded (hcons ▸ List.mem_cons_self)
  rw [hcons, List.cons_append, blanks_cons (isBlank_of_isDigit hc)]

theorem mark_cons (c : Char) (rest : List Char) : mark c (c :: rest) = .ok ((), rest) := by
  rw [mark, bind_of_ok (get_apply _)]
  simp only [if_true]
  rfl

theorem number_padded {width n : Nat} (hwidth : 0 < width) (hn : n < 10 ^ width)
    (hfit : (n : Int) ≤ Int64.maxValue.toInt) (rest : List Char) :
    number width (padded width n ++ rest) = .ok (n, rest) := by
  have hlength := length_padded hwidth hn
  have hnumber := number_digits rest (fun _ hc => isDigit_padded hc)
    (padded_ne_nil width n) (Nat.le_of_eq hlength) (Or.inl hlength) (by rwa [value_padded])
  rwa [value_padded] at hnumber

theorem field_padded {low high n : Nat} (hlow : low ≤ n) (hhigh : n ≤ high) (hn : n < 100)
    (rest : List Char) : field low high (padded 2 n ++ rest) = .ok (n, rest) := by
  have hfit : (n : Int) ≤ Int64.maxValue.toInt := by
    rw [show Int64.maxValue.toInt = 9223372036854775807 from rfl]
    omega
  have hwithin : ¬(n < low || high < n) = true := by
    simp only [Bool.or_eq_true, decide_eq_true_eq]
    omega
  rw [field, bind_of_ok (blanks_padded 2 n rest),
    bind_of_ok (number_padded (by decide) hn hfit rest), if_neg hwithin]
  rfl

theorem inInt32_of_isYear {y : Int} (hlow : firstYear ≤ y) (hhigh : y ≤ lastYear) :
    ¬(y < Int32.minValue.toInt || Int32.maxValue.toInt < y) = true := by
  rw [firstYear] at hlow
  rw [lastYear] at hhigh
  rw [show Int32.minValue.toInt = -2147483648 from rfl,
    show Int32.maxValue.toInt = 2147483647 from rfl]
  simp only [Bool.or_eq_true, decide_eq_true_eq]
  omega

/-- A year of four digits is read back. -/
theorem year_plain {n : Nat} (hn : n < 10 ^ 4) (rest : List Char) :
    year (padded 4 n ++ rest) = .ok ((n : Int), rest) := by
  have hinInt32 :
      ¬((n : Int) < Int32.minValue.toInt || Int32.maxValue.toInt < (n : Int)) = true := by
    apply inInt32_of_isYear
    · rw [firstYear]
      omega
    · rw [lastYear]
      omega
  have hfit : (n : Int) ≤ Int64.maxValue.toInt := by
    rw [show Int64.maxValue.toInt = 9223372036854775807 from rfl]
    omega
  have hnumber := number_padded (by decide) hn hfit rest
  rw [year, bind_of_ok (blanks_padded 4 n rest)]
  obtain ⟨c, cs, hcons⟩ := List.exists_cons_of_ne_nil (padded_ne_nil 4 n)
  have hc : c.isDigit = true := isDigit_padded (hcons ▸ List.mem_cons_self)
  -- A digit is no sign, so the year is read without one.
  have hminus : c ≠ '-' := by
    rintro rfl
    cases hc
  have hplus : c ≠ '+' := by
    rintro rfl
    cases hc
  rw [hcons, List.cons_append] at hnumber ⊢
  rw [bind_of_ok (get_apply _)]
  simp only [List.cons.injEq, hminus, hplus, false_and, imp_self, implies_true]
  rw [bind_of_ok (map_of_ok hnumber Int.ofNat)]
  change (if _ then _ else _ : StampReader Int) rest = _
  rw [Int.ofNat_eq_natCast, if_neg hinInt32]
  rfl

/-- A year behind its sign may have more than four digits. -/
theorem year_signed {y : Int} (hlow : firstYear ≤ y) (hhigh : y ≤ lastYear) {rest : List Char}
    (hrest : NoDigit rest) :
    year ((if y < 0 then '-' else '+') :: padded 4 y.natAbs ++ rest) = .ok (y, rest) := by
  have hinInt32 := inInt32_of_isYear hlow hhigh
  have hnumber : number (padded 4 y.natAbs ++ rest).length (padded 4 y.natAbs ++ rest) =
      .ok (y.natAbs, rest) := by
    have hfit : (value (padded 4 y.natAbs) : Int) ≤ Int64.maxValue.toInt := by
      rw [firstYear] at hlow
      rw [lastYear] at hhigh
      rw [value_padded, show Int64.maxValue.toInt = 9223372036854775807 from rfl]
      omega
    rw [number_digits rest (fun _ hc => isDigit_padded hc) (padded_ne_nil 4 _) (by simp)
      (Or.inr hrest) hfit, value_padded]
  rw [year]
  by_cases hneg : y < 0
  · have hy : -(y.natAbs : Int) = y := by omega
    rw [if_pos hneg, List.cons_append, bind_of_ok (blanks_cons (by decide) _),
      bind_of_ok (get_apply _)]
    simp only
    rw [bind_of_ok (set_apply _ _), bind_of_ok (map_of_ok hnumber _), hy, if_neg hinInt32]
    rfl
  · have hy : Int.ofNat y.natAbs = y := by
      rw [Int.ofNat_eq_natCast]
      omega
    rw [if_neg hneg, List.cons_append, bind_of_ok (blanks_cons (by decide) _),
      bind_of_ok (get_apply _)]
    simp only
    rw [bind_of_ok (set_apply _ _), bind_of_ok (map_of_ok hnumber _), hy, if_neg hinInt32]
    rfl

/-- A year is read back up to its dash. -/
theorem year_yearText {y : Int} (hlow : firstYear ≤ y) (hhigh : y ≤ lastYear) {rest : List Char}
    (hrest : NoDigit rest) : year (yearText y ++ rest) = .ok (y, rest) := by
  rw [yearText]
  split
  next hplain =>
    simp only [Bool.and_eq_true, decide_eq_true_eq] at hplain
    obtain ⟨n, rfl⟩ := Int.eq_ofNat_of_zero_le hplain.1
    have hn : n < 10 ^ 4 := by omega
    exact year_plain hn rest
  next => exact year_signed hlow hhigh hrest

/-- The digits behind a point count as a fraction with nine places. -/
theorem fraction_point {k n : Nat} (hk : 0 < k) (hnine : k ≤ 9) (hn : n < 10 ^ k) :
    fraction ('.' :: padded k n ++ ['Z']) = .ok (n * 10 ^ (9 - k), ['Z']) := by
  have hlength := length_padded hk hn
  have hcount : (((padded k n ++ ['Z']).take 9).takeWhile Char.isDigit).length = k := by
    rw [List.take_append, List.take_of_length_le (by omega), takeWhile_digits
      (fun _ hc => isDigit_padded hc) ?_, hlength]
    intro c hc
    have hmem := List.mem_of_mem_take (List.mem_of_mem_head? hc)
    rw [List.mem_singleton.mp hmem]
    rfl
  have hnumber : number 9 (padded k n ++ ['Z']) = .ok (n, ['Z']) := by
    have hfit : (value (padded k n) : Int) ≤ Int64.maxValue.toInt := by
      rw [value_padded, show Int64.maxValue.toInt = 9223372036854775807 from rfl]
      have hpow := Nat.pow_le_pow_right (by decide : 0 < 10) hnine
      omega
    rw [number_digits ['Z'] (fun _ hc => isDigit_padded hc) (padded_ne_nil k n) (by omega)
      (Or.inr (by simp [NoDigit])) hfit, value_padded]
  rw [fraction, bind_of_ok (get_apply _), List.cons_append]
  simp only
  rw [bind_of_ok (set_apply _ _), bind_of_ok hnumber, hcount]
  rfl

/-- A fraction is read back from three, six or nine places, and from none if it is zero. -/
theorem fraction_fractionText {nano : Nat} (hnano : nano < perSecond) :
    fraction (fractionText nano ++ ['Z']) = .ok (nano, ['Z']) := by
  rw [perSecond] at hnano
  unfold fractionText
  split
  next hzero => rw [hzero]; rfl
  next =>
  split
  next hmod =>
    rw [fraction_point (by decide) (by decide) (by omega),
      show nano / 1000000 * 10 ^ (9 - 3) = nano by omega]
  next =>
  split
  next hmod =>
    rw [fraction_point (by decide) (by decide) (by omega),
      show nano / 1000 * 10 ^ (9 - 6) = nano by omega]
  next =>
    rw [fraction_point (by decide) (by decide) (by omega),
      show nano * 10 ^ (9 - 9) = nano by omega]

/-- The fields of an instant, which is in UTC. -/
def Fields.of (t : Instant) : Fields where
  year := t.date.year
  month := t.date.month
  day := t.date.day
  hour := t.hour
  minute := t.minute
  second := t.second
  nano := t.nano
  ahead := 0

theorem zone_utc : zone ['Z'] = .ok (0, []) := rfl

theorem fields_text (t : Instant) : fields t.text.toList = .ok (.of t, []) := by
  obtain ⟨⟨y, month, day, hday⟩, hour, minute, second, nano⟩ := t
  obtain ⟨hfirst, hlast, hmonth, hmonth', hday, hday'⟩ := hday
  have hdays : daysIn y month ≤ 31 := by
    unfold daysIn
    repeat' split
    all_goals decide
  have hdash : ∀ rest, NoDigit ('-' :: rest) := fun rest => by simp [NoDigit]
  simp only [Instant.text, String.toList_ofList, List.append_assoc, List.cons_append]
  rw [fields, bind_of_ok (year_yearText hfirst hlast (hdash _)),
    bind_of_ok (blanks_cons (by decide) _), bind_of_ok (mark_cons '-' _),
    bind_of_ok (field_padded hmonth hmonth' (by omega) _),
    bind_of_ok (blanks_cons (by decide) _), bind_of_ok (mark_cons '-' _),
    bind_of_ok (field_padded hday (by omega) (by omega) _)]
  have hseparator : ∀ rest, separator ('T' :: rest) = .ok (⟨⟩, rest) := fun _ => rfl
  rw [bind_of_ok (hseparator _),
    bind_of_ok (field_padded (Nat.zero_le _) (by omega) (by omega) _),
    bind_of_ok (blanks_cons (by decide) _), bind_of_ok (mark_cons ':' _),
    bind_of_ok (field_padded (Nat.zero_le _) (by omega) (by omega) _),
    bind_of_ok (blanks_cons (by decide) _), bind_of_ok (mark_cons ':' _),
    bind_of_ok (field_padded (Nat.zero_le _) (by omega) (by omega) _),
    bind_of_ok (fraction_fractionText nano.isLt), bind_of_ok zone_utc]
  rfl

theorem Fields.instant_of (t : Instant) : (Fields.of t).instant = .ok t := by
  obtain ⟨⟨y, month, day, hday⟩, hour, minute, second, nano⟩ := t
  have hdate : Date.of? y month day = some ⟨y, month, day, hday⟩ := dif_pos hday
  have hminutes : (hour.val : Int) * 60 + minute.val - 0 = (hour.val * 60 + minute.val : Nat) := by
    push_cast
    omega
  have hwithin : ¬(1440 : Int) ≤ (hour.val * 60 + minute.val : Nat) := by omega
  simp only [Fields.instant, Fields.of, hdate, hminutes]
  rw [if_neg (by decide), if_neg (by omega), if_neg hwithin]
  change Except.ok (Instant.ofMinute _ _ _ _) = _
  rw [Int.emod_eq_of_lt (by omega) (by omega), Int.toNat_natCast]
  simp only [Instant.ofMinute, Except.ok.injEq, Instant.mk.injEq, Fin.ext_iff, Fin.val_ofNat,
    true_and, Nat.mod_eq_of_lt nano.isLt]
  exact ⟨by omega, by omega, by omega, trivial⟩

end StampReader

/-- Every instant is read back from its text. -/
theorem Instant.parse_text (t : Instant) : Instant.parse t.text = .ok t := by
  have hfields : StampReader.fields.run t.text.toList = .ok (.of t, []) :=
    StampReader.fields_text t
  rw [Instant.parse, hfields]
  exact StampReader.Fields.instant_of t

end WalletEngine.Time
