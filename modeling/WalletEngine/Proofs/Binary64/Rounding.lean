import Mathlib
import WalletEngine.Binary64.Rounding

/-! # Error bounds of rounding

The size of a finite number is its absolute value as a rational number. A ratio below the overflow
bound is rounded to a finite number whose size is within half a unit of the last place; what follows
for naturals, powers of ten, products and quotients is all that reading a decimal needs.
-/

namespace WalletEngine

/-! ## Powers -/

namespace Power

theorem num_pos {base : Nat} (hbase : 0 < base) (e : Int) : 0 < num base e :=
  Nat.pow_pos hbase

theorem den_pos {base : Nat} (hbase : 0 < base) (e : Int) : 0 < den base e :=
  Nat.pow_pos hbase

/-- The two parts of a power are its fraction. -/
theorem num_div_den {base : Nat} (hbase : 0 < base) (e : Int) :
    (num base e : ℚ) / den base e = (base : ℚ) ^ e := by
  have hbase' : (base : ℚ) ≠ 0 := by exact_mod_cast hbase.ne'
  have hnum : (num base e : ℚ) = (base : ℚ) ^ (e.toNat : ℤ) := by
    rw [zpow_natCast]
    exact Nat.cast_pow base e.toNat
  have hden : (den base e : ℚ) = (base : ℚ) ^ ((-e).toNat : ℤ) := by
    rw [zpow_natCast]
    exact Nat.cast_pow base (-e).toNat
  rw [hnum, hden, ← zpow_sub₀ hbase']
  congr 1
  omega

theorem num_eq {base : Nat} (hbase : 0 < base) (e : Int) :
    (num base e : ℚ) = (base : ℚ) ^ e * den base e := by
  have hden : (den base e : ℚ) ≠ 0 := by exact_mod_cast (den_pos hbase e).ne'
  rw [← num_div_den hbase, div_mul_cancel₀ _ hden]

end Power

namespace Binary64

/-! ## The size of a number -/

/-- The absolute value of a finite number; zero for the others. -/
def size (x : Binary64) : ℚ :=
  match x.view with
  | .finite _ mantissa exponent => mantissa * 2 ^ exponent
  | _ => 0

theorem leadingBit_eq : leadingBit = 2 ^ 52 := rfl

theorem leadingBit_pos : 0 < leadingBit := by decide

theorem magnitude_ofMagnitude {negative : Bool} {magnitude : Nat} (h : magnitude < signBit) :
    (ofMagnitude negative magnitude).magnitude = magnitude := by
  simp only [Binary64.magnitude, ofMagnitude, UInt64.toNat_ofNat', signBit] at *
  cases negative <;> simp <;> omega

theorem isNegative_ofMagnitude {negative : Bool} {magnitude : Nat} (h : magnitude < signBit) :
    (ofMagnitude negative magnitude).isNegative = negative := by
  simp only [isNegative, ofMagnitude, UInt64.toNat_ofNat', signBit] at *
  cases negative <;> simp <;> omega

theorem isFinite_ofMagnitude {negative : Bool} {magnitude : Nat}
    (h : magnitude < infinityMagnitude) : (ofMagnitude negative magnitude).isFinite = true := by
  have hsmall : magnitude < signBit := Nat.lt_trans h (by decide)
  rw [isFinite, magnitude_ofMagnitude hsmall]
  exact decide_eq_true h

/-- A number is known from its sign and its magnitude. -/
theorem ofMagnitude_self (x : Binary64) : ofMagnitude x.isNegative x.magnitude = x := by
  have hbits : x.bits.toNat < 2 ^ 64 := x.bits.toNat_lt
  have hsame : UInt64.ofNat (x.magnitude + if x.isNegative then signBit else 0) = x.bits := by
    refine UInt64.toNat_inj.mp ?_
    rw [UInt64.toNat_ofNat', magnitude, isNegative, signBit]
    by_cases hsign : 0x8000000000000000 ≤ x.bits.toNat
    · rw [if_pos (decide_eq_true hsign)]
      omega
    · rw [if_neg (by simpa using hsign)]
      omega
  rw [ofMagnitude, hsame]

theorem negate_ofMagnitude {negative : Bool} {magnitude : Nat} (h : magnitude < signBit) :
    (ofMagnitude negative magnitude).negate = ofMagnitude (!negative) magnitude := by
  rw [negate, isNegative_ofMagnitude h, magnitude_ofMagnitude h]

/-- A mantissa and an exponent of a finite number: the mantissa has 53 bits, or fewer at the least
exponent. -/
structure Fits (m : Nat) (e : ℤ) : Prop where
  mantissa : m < 2 * leadingBit
  least : -1074 ≤ e
  greatest : e ≤ 971
  leading : e = -1074 ∨ leadingBit ≤ m

/-- The magnitude of the number with a mantissa and an exponent. -/
def magnitudeOf (m : Nat) (e : ℤ) : Nat := (e + 1074).toNat * leadingBit + m

theorem Fits.magnitudeOf_lt {m : Nat} {e : ℤ} (h : Fits m e) :
    magnitudeOf m e < infinityMagnitude := by
  have hexponent := Nat.mul_le_mul_right leadingBit
    (by have := h.greatest; omega : (e + 1074).toNat ≤ 2045)
  have hmantissa := h.mantissa
  rw [magnitudeOf, infinityMagnitude]
  omega

/-- A finite number is known from its mantissa and its exponent. -/
theorem view_of_isFinite {x : Binary64} (h : x.isFinite = true) :
    ∃ m e, x.view = .finite x.isNegative m e ∧ Fits m e ∧ x.magnitude = magnitudeOf m e := by
  have hmag : x.magnitude < 0x7ff * leadingBit := of_decide_eq_true h
  have hfield : x.magnitude / leadingBit < 0x7ff := Nat.div_lt_of_lt_mul (by
    rw [Nat.mul_comm]; exact hmag)
  have hfraction : x.magnitude % leadingBit < leadingBit := Nat.mod_lt _ leadingBit_pos
  have hsum := Nat.div_add_mod x.magnitude leadingBit
  rw [Nat.mul_comm] at hsum
  unfold view magnitudeOf
  generalize x.magnitude / leadingBit = field at hfield hsum ⊢
  generalize x.magnitude % leadingBit = fraction at hfraction hsum ⊢
  rw [if_neg (by omega)]
  cases field with
  | zero =>
      rw [if_pos rfl]
      refine ⟨_, _, rfl, ⟨by omega, le_rfl, by decide, Or.inl rfl⟩, ?_⟩
      rw [← hsum]
      rfl
  | succ below =>
      rw [if_neg (Nat.succ_ne_zero below)]
      refine ⟨_, _, rfl, ⟨by omega, by omega, by omega, Or.inr (Nat.le_add_right _ _)⟩, ?_⟩
      rw [← hsum, Nat.succ_mul, Nat.add_assoc,
        show (((below + 1 : Nat) : ℤ) - 1075 + 1074).toNat = below by omega]

theorem size_nonneg (x : Binary64) : 0 ≤ x.size := by
  unfold size
  split
  · positivity
  · exact le_rfl

theorem size_of_view {x : Binary64} {s : Bool} {m : Nat} {e : Int}
    (h : x.view = .finite s m e) : x.size = m * 2 ^ e := by
  rw [size, h]

/-- The number with an exponent field and a fraction. -/
theorem view_ofMagnitude {field fraction : Nat} (hfraction : fraction < leadingBit)
    (hfield : field < 0x7ff) (negative : Bool) :
    (ofMagnitude negative (field * leadingBit + fraction)).view =
      if field = 0 then .finite negative fraction (-1074)
      else .finite negative (leadingBit + fraction) ((field : Int) - 1075) := by
  have hlast : field * leadingBit + fraction < infinityMagnitude := by
    have := Nat.mul_le_mul_right leadingBit (Nat.succ_le_of_lt hfield)
    rw [Nat.succ_mul] at this
    exact Nat.lt_of_lt_of_le (by omega) this
  have hsmall : field * leadingBit + fraction < signBit :=
    Nat.lt_trans hlast (by decide : infinityMagnitude < signBit)
  have hquot : (field * leadingBit + fraction) / leadingBit = field := by
    rw [Nat.mul_comm, Nat.mul_add_div leadingBit_pos, Nat.div_eq_of_lt hfraction, Nat.add_zero]
  have hmod : (field * leadingBit + fraction) % leadingBit = fraction := by
    rw [Nat.mul_comm, Nat.mul_add_mod, Nat.mod_eq_of_lt hfraction]
  unfold view
  rw [magnitude_ofMagnitude hsmall, isNegative_ofMagnitude hsmall, hquot, hmod, if_neg hfield.ne]

/-- A mantissa and an exponent give the number of that size. A mantissa of 54 bits is the next
power of two. -/
theorem size_ofMagnitude {k m : Nat} (hm : m ≤ 2 * leadingBit)
    (hk : k = 0 ∨ leadingBit ≤ m) (hfit : k * leadingBit + m < infinityMagnitude)
    (negative : Bool) :
    (ofMagnitude negative (k * leadingBit + m)).size = m * 2 ^ ((k : ℤ) - 1074) := by
  have hfield : ∀ {j n : Nat}, k * leadingBit + m = j * leadingBit + n → j < 0x7ff := by
    intro j n heq
    refine Nat.lt_of_mul_lt_mul_right (a := leadingBit) (Nat.lt_of_le_of_lt ?_ hfit)
    omega
  rcases Nat.lt_or_ge m leadingBit with hsub | hnormal
  · -- the subnormal numbers
    obtain rfl : k = 0 := by omega
    have hview := view_ofMagnitude hsub (by omega : 0 < 0x7ff) negative
    rw [if_pos rfl] at hview
    rw [size_of_view hview, Nat.cast_zero, zero_sub]
  rcases Nat.lt_or_ge m (2 * leadingBit) with hbelow | htop
  · have heq : k * leadingBit + m = (k + 1) * leadingBit + (m - leadingBit) := by
      rw [Nat.succ_mul]
      omega
    have hview := view_ofMagnitude (by omega : m - leadingBit < leadingBit) (hfield heq) negative
    rw [← heq, if_neg (by omega)] at hview
    rw [size_of_view hview, show leadingBit + (m - leadingBit) = m by omega]
    congr 2
    omega
  · -- the power of two behind the greatest mantissa
    have heq : k * leadingBit + m = (k + 2) * leadingBit + 0 := by
      rw [Nat.add_mul]
      omega
    have hview := view_ofMagnitude leadingBit_pos (hfield heq) negative
    rw [← heq, if_neg (by omega)] at hview
    have hexp : ((k + 2 : Nat) : ℤ) - 1075 = ((k : ℤ) - 1074) + 1 := by omega
    rw [size_of_view hview, show m = 2 * leadingBit by omega, hexp, zpow_add_one₀ two_ne_zero]
    push_cast
    ring

/-! ## Rounding a ratio -/

theorem divEven_bounds (num : Nat) {den : Nat} (hden : 0 < den) :
    2 * (divEven num den * den) ≤ 2 * num + den ∧ 2 * num ≤ 2 * (divEven num den * den) + den := by
  have hdiv := Nat.div_add_mod num den
  have hmod := Nat.mod_lt num hden
  rw [Nat.mul_comm] at hdiv
  unfold divEven
  by_cases hup : (decide (den < 2 * (num % den)) ||
      (2 * (num % den) == den && num / den % 2 == 1)) = true
  · rw [if_pos hup]
    have hhalf : den ≤ 2 * (num % den) := by
      simp only [Bool.or_eq_true, decide_eq_true_eq, Bool.and_eq_true, beq_iff_eq] at hup
      omega
    rw [Nat.add_one_mul (num / den)]
    omega
  · rw [if_neg hup]
    have hhalf : 2 * (num % den) ≤ den := by
      simp only [Bool.or_eq_true, decide_eq_true_eq, not_or] at hup
      omega
    omega

/-- The rounded quotient is at most one half away from the quotient. -/
theorem abs_divEven_sub_le (num : Nat) {den : Nat} (hden : 0 < den) :
    |(divEven num den : ℚ) - num / den| ≤ 1 / 2 := by
  obtain ⟨hup, hdown⟩ := divEven_bounds num hden
  have hden' : (0 : ℚ) < den := by exact_mod_cast hden
  have hup' : 2 * ((divEven num den : ℚ) * den) ≤ 2 * num + den := by exact_mod_cast hup
  have hdown' : 2 * (num : ℚ) ≤ 2 * ((divEven num den : ℚ) * den) + den := by exact_mod_cast hdown
  have hquot : (num : ℚ) / den * den = num := div_mul_cancel₀ _ hden'.ne'
  rw [abs_le]
  constructor
  · refine le_of_mul_le_mul_right ?_ hden'
    rw [sub_mul, hquot]
    linarith
  · refine le_of_mul_le_mul_right ?_ hden'
    rw [sub_mul, hquot]
    linarith

/-- A tie goes to the even natural. -/
theorem even_divEven_of_tie (num : Nat) {den : Nat} (hden : 0 < den)
    (htie : |(divEven num den : ℚ) - num / den| = 1 / 2) : divEven num den % 2 = 0 := by
  have hden' : (0 : ℚ) < den := by exact_mod_cast hden
  have hquot : (num : ℚ) / den * den = num := div_mul_cancel₀ _ hden'.ne'
  have hhalf : 2 * (divEven num den * den) = 2 * num + den ∨
      2 * num = 2 * (divEven num den * den) + den := by
    rcases (abs_eq (by norm_num)).mp htie with hup | hdown
    · left
      have hcast : 2 * ((divEven num den : ℚ) * den) = 2 * num + den := by
        rw [sub_eq_iff_eq_add.mp hup, add_mul, hquot]
        ring
      exact_mod_cast hcast
    · right
      have hcast : 2 * (num : ℚ) = 2 * ((divEven num den : ℚ) * den) + den := by
        rw [sub_eq_iff_eq_add.mp hdown, add_mul, hquot]
        ring
      exact_mod_cast hcast
  have hdiv := Nat.div_add_mod num den
  have hmod := Nat.mod_lt num hden
  rw [Nat.mul_comm] at hdiv
  unfold divEven at hhalf ⊢
  by_cases hup : (decide (den < 2 * (num % den)) ||
      (2 * (num % den) == den && num / den % 2 == 1)) = true
  · rw [if_pos hup, Nat.add_one_mul (num / den)] at hhalf
    rw [if_pos hup]
    simp only [Bool.or_eq_true, decide_eq_true_eq, Bool.and_eq_true, beq_iff_eq] at hup
    omega
  · rw [if_neg hup] at hhalf
    rw [if_neg hup]
    simp only [Bool.or_eq_true, decide_eq_true_eq, Bool.and_eq_true, beq_iff_eq, not_or,
      not_and] at hup
    omega

theorem zpow_le_natCast_of_le_log2 {n : Nat} (hn : n ≠ 0) : (2 : ℚ) ^ (n.log2 : ℤ) ≤ n := by
  rw [zpow_natCast]
  exact_mod_cast Nat.log2_self_le hn

theorem natCast_lt_zpow_log2 (n : Nat) : (n : ℚ) < 2 ^ ((n.log2 : ℤ) + 1) := by
  rw [show ((n.log2 : ℤ) + 1) = ((n.log2 + 1 : Nat) : ℤ) by push_cast; rfl, zpow_natCast]
  exact_mod_cast Nat.lt_log2_self

/-- A ratio lies between the powers of two that the lengths of its parts tell. -/
theorem log2_ratio_bounds {num den : Nat} (hnum : num ≠ 0) (hden : den ≠ 0) {bits : ℤ}
    (hbits : (num.log2 : ℤ) - den.log2 = bits) :
    (2 : ℚ) ^ (bits - 1) ≤ num / den ∧ (num : ℚ) / den < 2 ^ (bits + 1) := by
  have hden' : (0 : ℚ) < den := by exact_mod_cast Nat.pos_of_ne_zero hden
  constructor
  · rw [le_div_iff₀ hden']
    calc (2 : ℚ) ^ (bits - 1) * den ≤ 2 ^ (bits - 1) * 2 ^ ((den.log2 : ℤ) + 1) := by
          gcongr
          exact (natCast_lt_zpow_log2 den).le
      _ = 2 ^ (num.log2 : ℤ) := by
          rw [← zpow_add₀ two_ne_zero]
          congr 1
          omega
      _ ≤ num := zpow_le_natCast_of_le_log2 hnum
  · rw [div_lt_iff₀ hden']
    calc (num : ℚ) < 2 ^ ((num.log2 : ℤ) + 1) := natCast_lt_zpow_log2 num
      _ = 2 ^ (bits + 1) * 2 ^ (den.log2 : ℤ) := by
          rw [← zpow_add₀ two_ne_zero]
          congr 1
          omega
      _ ≤ 2 ^ (bits + 1) * den := by
          gcongr
          exact zpow_le_natCast_of_le_log2 hden

/-- The exponent leaves a mantissa of 53 bits in front of the point, or fewer at the least
exponent. -/
theorem exponentOf_bounds {num den : Nat} (hnum : num ≠ 0) (hden : den ≠ 0) :
    (num : ℚ) / den < 2 ^ (exponentOf num den + 53) ∧ -1074 ≤ exponentOf num den ∧
      (exponentOf num den = -1074 ∨ (2 : ℚ) ^ (exponentOf num den + 52) ≤ num / den) := by
  have hden' : (0 : ℚ) < den := by exact_mod_cast Nat.pos_of_ne_zero hden
  generalize hguess : (num.log2 : Int) - den.log2 = guess
  obtain ⟨hlow, hhigh⟩ := log2_ratio_bounds hnum hden hguess
  have htest : num * Power.den 2 guess < den * Power.num 2 guess ↔
      (num : ℚ) / den < 2 ^ guess := by
    have hpow : (0 : ℚ) < Power.den 2 guess := by
      exact_mod_cast Power.den_pos two_pos guess
    have hnumEq := Power.num_eq two_pos guess
    rw [div_lt_iff₀ hden', ← mul_lt_mul_iff_left₀ hpow, ← Nat.cast_lt (α := ℚ)]
    push_cast
    rw [hnumEq]
    push_cast
    rw [show (den : ℚ) * (2 ^ guess * (Power.den 2 guess : ℚ)) =
      2 ^ guess * den * (Power.den 2 guess : ℚ) by ring]
  obtain ⟨top, htop, htopLow, htopHigh⟩ : ∃ top : Int,
      exponentOf num den = max (top - 52) (-1074) ∧ (2 : ℚ) ^ top ≤ num / den ∧
        (num : ℚ) / den < 2 ^ (top + 1) := by
    unfold exponentOf
    simp only [hguess]
    by_cases hless : num * Power.den 2 guess < den * Power.num 2 guess
    · refine ⟨guess - 1, by rw [if_pos hless], hlow, ?_⟩
      rw [sub_add_cancel]
      exact htest.mp hless
    · exact ⟨guess, by rw [if_neg hless], not_lt.mp (htest.not.mp hless), hhigh⟩
  rw [htop]
  refine ⟨lt_of_lt_of_le htopHigh (zpow_le_zpow_right₀ one_le_two (by omega)), by omega, ?_⟩
  rcases le_total (top - 52) (-1074) with hmin | hmin
  · exact Or.inl (max_eq_right hmin)
  · right
    rw [max_eq_left hmin, sub_add_cancel]
    exact htopLow

/-- How the ratio `q` is rounded: the result has the size of a mantissa at the exponent of `q`,
which is at most half a unit away from `q`, and even if it is as far as that. -/
theorem ofRatio_spec {num den : Nat} (hnum : num ≠ 0) (hden : den ≠ 0) (negative : Bool) :
    ∃ (k : ℤ) (m : Nat), -1074 ≤ k ∧ (num : ℚ) / den < 2 ^ (k + 53) ∧
      (k = -1074 ∨ (2 : ℚ) ^ (k + 52) ≤ num / den) ∧
      |(m : ℚ) - num / den / 2 ^ k| ≤ 1 / 2 ∧
      (|(m : ℚ) - num / den / 2 ^ k| = 1 / 2 → m % 2 = 0) ∧ m ≤ 2 * leadingBit ∧
      (k = -1074 ∨ leadingBit ≤ m) ∧
      ofRatio negative num den =
        ofMagnitude negative (min ((k + 1074).toNat * leadingBit + m) infinityMagnitude) := by
  obtain ⟨hhigh, hmin, hlow⟩ := exponentOf_bounds hnum hden
  generalize hk : exponentOf num den = k at hhigh hmin hlow
  have hpow : (0 : ℚ) < 2 ^ k := by positivity
  have hscaledDen : 0 < den * Power.num 2 k :=
    Nat.mul_pos (Nat.pos_of_ne_zero hden) (Power.num_pos two_pos k)
  have hscaled : ((num * Power.den 2 k : Nat) : ℚ) / (den * Power.num 2 k : Nat) =
      num / den / 2 ^ k := by
    have hpowDen : (Power.den 2 k : ℚ) ≠ 0 := by exact_mod_cast (Power.den_pos two_pos k).ne'
    rw [Nat.cast_mul, Nat.cast_mul, Power.num_eq two_pos k, Nat.cast_ofNat, div_div,
      show (den : ℚ) * (2 ^ k * (Power.den 2 k : ℚ)) = den * 2 ^ k * Power.den 2 k by ring,
      mul_div_mul_right _ _ hpowDen]
  have herror := abs_divEven_sub_le (num * Power.den 2 k) hscaledDen
  have htie := even_divEven_of_tie (num * Power.den 2 k) hscaledDen
  rw [hscaled] at herror htie
  generalize hm : divEven (num * Power.den 2 k) (den * Power.num 2 k) = m at herror htie
  obtain ⟨hbelow, habove⟩ := abs_le.mp herror
  have hupper : (num : ℚ) / den / 2 ^ k < 2 ^ (53 : ℕ) := by
    rw [div_lt_iff₀ hpow, ← zpow_natCast, ← zpow_add₀ two_ne_zero, add_comm]
    exact hhigh
  have hmUpper : m ≤ 2 * leadingBit := by
    have hlt : (m : ℚ) < (2 * leadingBit + 1 : Nat) := by
      rw [leadingBit_eq]
      push_cast
      linarith
    exact Nat.lt_succ_iff.mp (by exact_mod_cast hlt)
  have hmLower : k = -1074 ∨ leadingBit ≤ m := by
    rcases hlow with hlow | hlow
    · exact Or.inl hlow
    · right
      have hlower : (2 : ℚ) ^ (52 : ℕ) ≤ num / den / 2 ^ k := by
        rw [le_div_iff₀ hpow, ← zpow_natCast, ← zpow_add₀ two_ne_zero, add_comm]
        exact hlow
      have hlt : (leadingBit : ℚ) < (m + 1 : Nat) := by
        rw [leadingBit_eq]
        push_cast
        linarith
      exact Nat.lt_succ_iff.mp (by exact_mod_cast hlt)
  refine ⟨k, m, hmin, hhigh, hlow, herror, htie, hmUpper, hmLower, ?_⟩
  rw [ofRatio, if_neg (by simp [hnum, hden])]
  simp only [hk, hm]

/-- The bound below which a ratio is rounded to a finite number. -/
def overflow : ℚ := (2 ^ 54 - 1) * 2 ^ 970

theorem overflow_lt : overflow < 2 ^ (1024 : ℤ) := by
  have hsplit : (2 : ℚ) ^ (1024 : ℤ) = 2 ^ 54 * 2 ^ 970 := by
    rw [zpow_ofNat, ← pow_add]
  rw [hsplit, overflow]
  gcongr
  norm_num

theorem overflow_eq : overflow = (2 ^ 54 - 1) / 2 * 2 ^ (971 : ℤ) := by
  have hsplit : (2 : ℚ) ^ (971 : ℤ) = 2 * 2 ^ 970 := by
    rw [zpow_ofNat, pow_succ']
  rw [hsplit, overflow, ← mul_assoc, div_mul_cancel₀ _ two_ne_zero]

/-- A mantissa and an exponent that a quotient below the bound is rounded to stay below infinity. -/
theorem magnitude_lt_infinity {num den m : Nat} {k : ℤ} (hfit : (num : ℚ) / den < overflow)
    (hlow : k = -1074 ∨ (2 : ℚ) ^ (k + 52) ≤ num / den)
    (herror : |(m : ℚ) - num / den / 2 ^ k| ≤ 1 / 2) (hmUpper : m ≤ 2 * leadingBit) :
    (k + 1074).toNat * leadingBit + m < infinityMagnitude := by
  have hk : k ≤ 971 := by
    rcases hlow with rfl | hlow
    · decide
    · have hlt : (2 : ℚ) ^ (k + 52) < 2 ^ (1024 : ℤ) :=
        lt_of_le_of_lt hlow (hfit.trans overflow_lt)
      have := (zpow_lt_zpow_iff_right₀ one_lt_two).mp hlt
      omega
  rw [infinityMagnitude]
  rcases hk.lt_or_eq with hbelow | rfl
  · have := Nat.mul_le_mul_right leadingBit (by omega : (k + 1074).toNat ≤ 2044)
    have := leadingBit_pos
    omega
  · -- at the greatest exponent the mantissa must not be rounded up to 54 bits
    have hratio : (num : ℚ) / den / 2 ^ (971 : ℤ) < (2 ^ 54 - 1) / 2 := by
      rw [div_lt_iff₀ (by positivity), ← overflow_eq]
      exact hfit
    have hlt : (m : ℚ) < (2 * leadingBit : Nat) := by
      rw [leadingBit_eq]
      push_cast
      linarith [(abs_le.mp herror).2]
    have := Nat.cast_lt.mp hlt
    change 2045 * leadingBit + m < _
    omega

/-- A ratio below the bound is rounded to a finite number. The error is half a unit of the last
place: relative to the ratio unless the result is subnormal. -/
theorem ofRatio_finite {num den : Nat} (hnum : num ≠ 0) (hden : den ≠ 0)
    (hfit : (num : ℚ) / den < overflow) (negative : Bool) :
    (ofRatio negative num den).isFinite = true ∧
      |(ofRatio negative num den).size - num / den| ≤
        max ((num : ℚ) / den / 2 ^ 53) (1 / 2 ^ 1075) := by
  obtain ⟨k, m, hmin, hhigh, hlow, herror, -, hmUpper, hmLower, hround⟩ :=
    ofRatio_spec hnum hden negative
  have hpow : (0 : ℚ) < 2 ^ k := by positivity
  have hmag := magnitude_lt_infinity hfit hlow herror hmUpper
  rw [hround, min_eq_left hmag.le]
  refine ⟨isFinite_ofMagnitude hmag, ?_⟩
  rw [size_ofMagnitude hmUpper (by omega) hmag, show (((k + 1074).toNat : ℤ) - 1074) = k by omega]
  have habs : |(m : ℚ) * 2 ^ k - num / den| ≤ 2 ^ k / 2 := by
    have hfactor : (m : ℚ) * 2 ^ k - num / den = (m - num / den / 2 ^ k) * 2 ^ k := by
      rw [sub_mul, div_mul_cancel₀ _ hpow.ne']
    rw [hfactor, abs_mul, abs_of_pos hpow]
    calc _ ≤ 1 / 2 * (2 : ℚ) ^ k := by gcongr
      _ = 2 ^ k / 2 := by ring
  refine habs.trans ?_
  rcases hlow with rfl | hlow
  · refine le_max_of_le_right (le_of_eq ?_)
    rw [zpow_neg, zpow_ofNat, pow_succ _ 1074, one_div, mul_inv, div_eq_mul_inv]
  · refine le_max_of_le_left ?_
    rw [le_div_iff₀ (by positivity)]
    calc _ = (2 : ℚ) ^ (k + 52) := by rw [zpow_add₀ two_ne_zero]; norm_num; ring
      _ ≤ _ := hlow

/-! ## Naturals, products and quotients -/

theorem zero_isFinite (negative : Bool) : (zero negative).isFinite = true :=
  isFinite_ofMagnitude (by decide)

theorem size_zero (negative : Bool) : (zero negative).size = 0 := by
  have hview := view_ofMagnitude leadingBit_pos (by decide : 0 < 0x7ff) negative
  rw [if_pos rfl] at hview
  rw [zero, show 0 = 0 * leadingBit + 0 from rfl, size_of_view hview, Nat.cast_zero, zero_mul]

/-- The size of a rounded ratio is at most twice the ratio, up to one. -/
theorem ofRatio_size_le {num den : Nat} (hden : den ≠ 0) (hfit : (num : ℚ) / den < overflow)
    (negative : Bool) :
    (ofRatio negative num den).isFinite = true ∧
      (ofRatio negative num den).size ≤ 2 * ((num : ℚ) / den) + 1 := by
  have hratio : (0 : ℚ) ≤ num / den := by positivity
  by_cases hnum : num = 0
  · rw [ofRatio, if_pos (by simp [hnum]), size_zero]
    exact ⟨zero_isFinite negative, by linarith⟩
  obtain ⟨hfinite, herror⟩ := ofRatio_finite hnum hden hfit negative
  refine ⟨hfinite, ?_⟩
  have hmax : max ((num : ℚ) / den / 2 ^ 53) (1 / 2 ^ 1075) ≤ (num : ℚ) / den + 1 := by
    refine max_le ?_ ?_
    · have := div_le_self hratio (one_le_pow₀ one_le_two : (1 : ℚ) ≤ 2 ^ 53)
      linarith
    · refine (div_le_self zero_le_one (one_le_pow₀ one_le_two)).trans ?_
      linarith
  linarith [(abs_le.mp (herror.trans hmax)).2]

/-- A positive natural is rounded with a relative error of at most 2 ^ -53. -/
theorem ofNat_spec {n : Nat} (hn : n ≠ 0) (hfit : (n : ℚ) < overflow) :
    (ofNat n).isFinite = true ∧ |(ofNat n).size - n| ≤ n / 2 ^ 53 := by
  obtain ⟨hfinite, herror⟩ :=
    ofRatio_finite hn one_ne_zero (by rwa [Nat.cast_one, div_one]) false
  rw [Nat.cast_one, div_one] at herror
  refine ⟨hfinite, herror.trans (max_le le_rfl ?_)⟩
  have hone : (1 : ℚ) ≤ n := by exact_mod_cast Nat.one_le_iff_ne_zero.mpr hn
  gcongr
  · exact one_le_two
  · decide

/-- A product below the bound is finite. -/
theorem mul_isFinite {x y : Binary64} (hx : x.isFinite = true) (hy : y.isFinite = true)
    (hfit : x.size * y.size < overflow) : (x.mul y).isFinite = true := by
  obtain ⟨m, e, hviewX, -⟩ := view_of_isFinite hx
  obtain ⟨n, f, hviewY, -⟩ := view_of_isFinite hy
  have hratio : ((m * n * Power.num 2 (e + f) : Nat) : ℚ) / (Power.den 2 (e + f) : Nat) =
      x.size * y.size := by
    rw [size_of_view hviewX, size_of_view hviewY, Nat.cast_mul, mul_div_assoc,
      Power.num_div_den two_pos, Nat.cast_ofNat, zpow_add₀ two_ne_zero]
    push_cast
    ring
  unfold mul
  simp only [hviewX, hviewY]
  exact (ofRatio_size_le (Power.den_pos two_pos _).ne' (hratio ▸ hfit) _).1

/-- A quotient is the exact one, rounded. -/
theorem div_eq_ofRatio {x y : Binary64} (hx : x.isFinite = true) (hy : y.isFinite = true)
    (hzero : y.size ≠ 0) : ∃ num den : Nat, den ≠ 0 ∧ (num : ℚ) / den = x.size / y.size ∧
      x.div y = ofRatio (x.isNegative != y.isNegative) num den := by
  obtain ⟨m, e, hviewX, -⟩ := view_of_isFinite hx
  obtain ⟨n, f, hviewY, -⟩ := view_of_isFinite hy
  have hn : n ≠ 0 := by
    rintro rfl
    exact hzero (by rw [size_of_view hviewY, Nat.cast_zero, zero_mul])
  have hratio : ((m * Power.num 2 (e - f) : Nat) : ℚ) / (n * Power.den 2 (e - f) : Nat) =
      x.size / y.size := by
    rw [size_of_view hviewX, size_of_view hviewY, Nat.cast_mul, Nat.cast_mul, mul_div_mul_comm,
      Power.num_div_den two_pos, Nat.cast_ofNat, zpow_sub₀ two_ne_zero, mul_div_mul_comm]
  refine ⟨_, _, mul_ne_zero hn (Power.den_pos two_pos _).ne', hratio, ?_⟩
  unfold div
  simp only [hviewX, hviewY, if_neg hn]

/-- A quotient below the bound is finite, and not much larger than the exact one. -/
theorem div_spec {x y : Binary64} (hx : x.isFinite = true) (hy : y.isFinite = true)
    (hzero : y.size ≠ 0) (hfit : x.size / y.size < overflow) :
    (x.div y).isFinite = true ∧ (x.div y).size ≤ 2 * (x.size / y.size) + 1 := by
  obtain ⟨num, den, hden, hratio, hdiv⟩ := div_eq_ofRatio hx hy hzero
  rw [hdiv, ← hratio]
  exact ofRatio_size_le hden (hratio ▸ hfit) _

theorem pow_ten_lt_overflow : (10 : ℚ) ^ 308 < overflow := by
  have hnat : 10 ^ 308 < (2 ^ 54 - 1) * 2 ^ 970 := by decide +kernel
  have hcast := Nat.cast_lt (α := ℚ).mpr hnat
  rwa [Nat.cast_pow, Nat.cast_mul, Nat.cast_pow, Nat.cast_sub (by decide +kernel), Nat.cast_pow,
    Nat.cast_one] at hcast

/-- A power of ten within the range of the type is rounded with a relative error of at most
2 ^ -53. -/
theorem powerOfTen_spec {n : Nat} (hn : n ≤ 308) :
    (powerOfTen n).isFinite = true ∧ |(powerOfTen n).size - 10 ^ n| ≤ 10 ^ n / 2 ^ 53 := by
  have hcast : ((Power.num 10 n : Nat) : ℚ) = 10 ^ n := by
    rw [Power.num, Int.toNat_natCast]
    exact_mod_cast rfl
  have hfit : ((Power.num 10 n : Nat) : ℚ) < overflow := by
    rw [hcast]
    exact (pow_le_pow_right₀ (by norm_num) hn).trans_lt pow_ten_lt_overflow
  have hspec := ofNat_spec (Power.num_pos (by decide) n).ne' hfit
  rwa [hcast] at hspec

end Binary64
end WalletEngine
