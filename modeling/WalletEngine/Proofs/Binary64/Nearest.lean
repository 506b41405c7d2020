import WalletEngine.Proofs.Binary64.Rounding

/-! # The reals that round to a number

A ratio is rounded to a number exactly if it is at most half a unit of the last place away from it, a
tie only if the mantissa is even; below a power of two the unit is half as large. So what a ratio is
rounded to is known without its exponent, and an operation on exact operands gives the number that the
exact result rounds to.
-/

namespace WalletEngine.Binary64

/-- A ratio that is nearer to a number than to its neighbours, or as near if the mantissa is even. The
neighbour below a power of two is only half a unit away. -/
structure RoundsTo (q : ℚ) (m : Nat) (e : ℤ) : Prop where
  near : |(m : ℚ) - q / 2 ^ e| ≤ 1 / 2
  tie : |(m : ℚ) - q / 2 ^ e| = 1 / 2 → m % 2 = 0
  below : m = leadingBit → e ≠ -1074 → (m : ℚ) - 1 / 4 ≤ q / 2 ^ e

/-- There is one natural that a ratio is nearest to, with ties to even. -/
theorem nearest_unique {m n : Nat} {v : ℚ} (hm : |(m : ℚ) - v| ≤ 1 / 2)
    (hmTie : |(m : ℚ) - v| = 1 / 2 → m % 2 = 0) (hn : |(n : ℚ) - v| ≤ 1 / 2)
    (hnTie : |(n : ℚ) - v| = 1 / 2 → n % 2 = 0) : m = n := by
  wlog hle : m ≤ n generalizing m n
  · exact (this hn hnTie hm hmTie (Nat.le_of_not_le hle)).symm
  rcases hle.eq_or_lt with heq | hlt
  · exact heq
  -- Of two neighbours that are both nearest one is odd.
  have hstep : (m : ℚ) + 1 ≤ n := by exact_mod_cast hlt
  obtain ⟨hmLow, hmHigh⟩ := abs_le.mp hm
  obtain ⟨hnLow, hnHigh⟩ := abs_le.mp hn
  have hv : v = m + 1 / 2 := by linarith
  have hnext : (n : ℚ) = m + 1 := by linarith
  have hmEven := hmTie (by rw [hv, abs_of_nonpos] <;> linarith)
  have hnEven := hnTie (by rw [hv, hnext, abs_of_nonneg] <;> linarith)
  have hsucc : n = m + 1 := by exact_mod_cast hnext
  omega

/-- The interval of a number in units of its last place. -/
theorem roundsTo_iff {q : ℚ} {m : Nat} {e : ℤ} : RoundsTo q m e ↔
    (if m = leadingBit ∧ e ≠ -1074 then (m : ℚ) - 1 / 4 else m - 1 / 2) ≤ q / 2 ^ e ∧
      q / 2 ^ e ≤ m + 1 / 2 ∧ (m % 2 ≠ 0 → (m : ℚ) - 1 / 2 < q / 2 ^ e ∧ q / 2 ^ e < m + 1 / 2) := by
  constructor
  · intro h
    obtain ⟨hlow, hhigh⟩ := abs_le.mp h.near
    refine ⟨?_, by linarith, fun hodd => ?_⟩
    · split
      next htop => exact h.below htop.1 htop.2
      next => linarith
    · have hne := mt h.tie hodd
      constructor
      · refine lt_of_le_of_ne (by linarith) fun heq => hne ?_
        rw [← heq]
        norm_num
      · refine lt_of_le_of_ne (by linarith) fun heq => hne ?_
        rw [heq, sub_add_cancel_left, abs_neg]
        norm_num
  · rintro ⟨hlow, hhigh, hodd⟩
    have hbelow : (m : ℚ) - 1 / 2 ≤ q / 2 ^ e := by
      split at hlow <;> linarith
    refine ⟨abs_le.mpr ⟨by linarith, by linarith⟩, fun htie => ?_, fun hm he => ?_⟩
    · by_contra hne
      obtain ⟨hlt, hgt⟩ := hodd hne
      rcases (abs_eq (by norm_num)).mp htie with heq | heq <;> linarith
    · rwa [if_pos ⟨hm, he⟩] at hlow

/-- What lies between a number and a ratio that rounds to it rounds to it as well. -/
theorem RoundsTo.of_between {p q : ℚ} {m : Nat} {e : ℤ} (h : RoundsTo p m e)
    (hq : (p ≤ q ∧ q ≤ m * 2 ^ e) ∨ (m * 2 ^ e ≤ q ∧ q ≤ p)) : RoundsTo q m e := by
  have hpow : (0 : ℚ) < 2 ^ e := by positivity
  rw [roundsTo_iff] at h ⊢
  have hcenter : (if m = leadingBit ∧ e ≠ -1074 then (m : ℚ) - 1 / 4 else m - 1 / 2) ≤ m := by
    split <;> linarith
  obtain ⟨hlow, hhigh, hodd⟩ := h
  rcases hq with ⟨hfrom, hto⟩ | ⟨hfrom, hto⟩
  · have hfrom' : p / 2 ^ e ≤ q / 2 ^ e := div_le_div_of_nonneg_right hfrom hpow.le
    have hto' : q / 2 ^ e ≤ m := (div_le_iff₀ hpow).mpr hto
    exact ⟨hlow.trans hfrom', by linarith,
      fun hne => ⟨(hodd hne).1.trans_le hfrom', by linarith⟩⟩
  · have hfrom' : (m : ℚ) ≤ q / 2 ^ e := (le_div_iff₀ hpow).mpr hfrom
    have hto' : q / 2 ^ e ≤ p / 2 ^ e := div_le_div_of_nonneg_right hto hpow.le
    exact ⟨hcenter.trans hfrom', hto'.trans hhigh,
      fun hne => ⟨by linarith, hto'.trans_lt (hodd hne).2⟩⟩

/-- What rounds to a number has about its size. -/
theorem RoundsTo.size_bounds {q : ℚ} {m : Nat} {e : ℤ} (h : RoundsTo q m e) {n : Nat}
    (hn : n ≤ m) : n * |q - m * 2 ^ e| ≤ m * 2 ^ e / 2 := by
  have hpow : (0 : ℚ) < 2 ^ e := by positivity
  have hfactor : q - m * 2 ^ e = -((m - q / 2 ^ e) * 2 ^ e) := by
    rw [sub_mul, div_mul_cancel₀ _ hpow.ne']
    ring
  have hcast : (n : ℚ) ≤ m := by exact_mod_cast hn
  rw [hfactor, abs_neg, abs_mul, abs_of_pos hpow]
  calc (n : ℚ) * (|(m : ℚ) - q / 2 ^ e| * 2 ^ e) ≤ m * (1 / 2 * 2 ^ e) := by
        gcongr
        exact h.near
    _ = m * 2 ^ e / 2 := by ring

/-- What is not less than the least number is not rounded to zero. -/
theorem RoundsTo.mantissa_ne_zero {q : ℚ} {m : Nat} {e : ℤ} (h : RoundsTo q m e) (hfits : Fits m e)
    (hq : (2 : ℚ) ^ (-1074 : ℤ) ≤ q) : m ≠ 0 := by
  rintro rfl
  obtain rfl : e = -1074 := hfits.leading.resolve_right (by decide)
  have hpow : (0 : ℚ) < 2 ^ (-1074 : ℤ) := by positivity
  have hnear := (abs_le.mp h.near).1
  rw [Nat.cast_zero, zero_sub, neg_le_neg_iff, div_le_iff₀ hpow] at hnear
  linarith

section Ratios
variable {num den m : Nat} {e : ℤ}

/-- At an exponent below its own, a ratio that rounds to a power of two has the mantissa of 54 bits. -/
theorem mantissa_of_below {k : ℤ} {n : Nat} {q : ℚ} (hfits : Fits m e) (h : RoundsTo q m e)
    (hk : k < e) (hleast : -1074 ≤ k) (hhigh : q < 2 ^ (k + 53))
    (herror : |(n : ℚ) - q / 2 ^ k| ≤ 1 / 2)
    (htie : |(n : ℚ) - q / 2 ^ k| = 1 / 2 → n % 2 = 0) :
    m = leadingBit ∧ e = k + 1 ∧ n = 2 * leadingBit := by
  have hpow : (0 : ℚ) < 2 ^ e := by positivity
  have hm : leadingBit ≤ m := hfits.leading.resolve_left (by omega)
  have hmCast : (2 : ℚ) ^ 52 ≤ m := by rw [leadingBit_eq] at hm; exact_mod_cast hm
  have hnear := (abs_le.mp h.near).2
  have hfar : q / 2 ^ e < 2 ^ (k + 53 - e) := by
    rw [zpow_sub₀ two_ne_zero]
    exact div_lt_div_of_pos_right hhigh hpow
  -- Two places below it would be too small.
  have hnext : e = k + 1 := by
    by_contra hne
    have hsmall : (2 : ℚ) ^ (k + 53 - e) ≤ 2 ^ (51 : ℕ) := by
      rw [← zpow_natCast]
      exact zpow_le_zpow_right₀ one_le_two (by omega)
    linarith
  subst hnext
  rw [show k + 53 - (k + 1) = (52 : ℕ) by omega, zpow_natCast] at hfar
  have hleading : m = leadingBit := by
    have hlt : (m : ℚ) < (leadingBit + 1 : Nat) := by
      rw [leadingBit_eq]
      push_cast
      linarith
    have := Nat.cast_lt.mp hlt
    omega
  have hlow := h.below hleading (by omega)
  have hdouble : q / 2 ^ k = 2 * (q / 2 ^ (k + 1)) := by
    rw [zpow_add_one₀ two_ne_zero]
    field_simp
  rw [hdouble] at herror htie
  have hcast : ((2 * leadingBit : Nat) : ℚ) = 2 * 2 ^ 52 := by
    rw [leadingBit_eq]
    norm_num
  rw [hleading, leadingBit_eq, Nat.cast_pow, Nat.cast_ofNat] at hlow
  refine ⟨hleading, rfl, nearest_unique herror htie ?_ fun _ => by omega⟩
  rw [hcast, abs_le]
  constructor <;> linarith

/-- A ratio that is nearest to a number is rounded to it. -/
theorem ofRatio_of_roundsTo (hnum : num ≠ 0) (hden : den ≠ 0) (hfits : Fits m e)
    (h : RoundsTo ((num : ℚ) / den) m e) (negative : Bool) :
    ofRatio negative num den = ofMagnitude negative (magnitudeOf m e) := by
  obtain ⟨k, n, hleast, hhigh, hlow, herror, htie, -, -, hround⟩ := ofRatio_spec hnum hden negative
  have hpow : (0 : ℚ) < 2 ^ e := by positivity
  have hsame : (k + 1074).toNat * leadingBit + n = magnitudeOf m e := by
    rcases lt_trichotomy k e with hk | rfl | hk
    · obtain ⟨rfl, rfl, rfl⟩ := mantissa_of_below hfits h hk hleast hhigh herror htie
      rw [magnitudeOf, show (k + 1 + 1074).toNat = (k + 1074).toNat + 1 by omega, Nat.add_mul]
      omega
    · rw [nearest_unique herror htie h.near h.tie, magnitudeOf]
    · -- At an exponent above its own the ratio would have more than 53 bits.
      exfalso
      have hbelow := hlow.resolve_left (by have := hfits.least; omega)
      have hmantissa : (m : ℚ) + 1 ≤ 2 ^ 53 := by
        have hlt := hfits.mantissa
        rw [leadingBit_eq] at hlt
        exact_mod_cast (by omega : m + 1 ≤ 2 ^ 53)
      have hlarge : (2 : ℚ) ^ (53 : ℕ) ≤ num / den / 2 ^ e := by
        rw [le_div_iff₀ hpow, ← zpow_natCast, ← zpow_add₀ two_ne_zero]
        exact (zpow_le_zpow_right₀ one_le_two (by omega)).trans hbelow
      have hnear := (abs_le.mp h.near).1
      linarith
  rw [hround, hsame, min_eq_left hfits.magnitudeOf_lt.le]

/-- A ratio that is rounded to a number is nearest to it. -/
theorem roundsTo_of_ofRatio (hnum : num ≠ 0) (hden : den ≠ 0) (hfits : Fits m e) {negative : Bool}
    (h : (ofRatio negative num den).magnitude = magnitudeOf m e) :
    RoundsTo ((num : ℚ) / den) m e := by
  obtain ⟨k, n, hleast, hhigh, hlow, herror, htie, hupper, hlower, hround⟩ :=
    ofRatio_spec hnum hden negative
  have hlast := hfits.magnitudeOf_lt
  have hsmall : infinityMagnitude < signBit := by decide
  rw [hround, magnitude_ofMagnitude (Nat.lt_of_le_of_lt (min_le_right _ _) hsmall)] at h
  have hsame : (k + 1074).toNat * leadingBit + n = magnitudeOf m e := by omega
  have hpow : (0 : ℚ) < 2 ^ k := by positivity
  have hmantissa := hfits.mantissa
  have hleading := hfits.leading
  have hleastE := hfits.least
  rw [magnitudeOf] at hsame
  rcases hupper.lt_or_eq with hbelow | rfl
  · obtain ⟨rfl, rfl⟩ : k = e ∧ n = m := by
      rw [leadingBit_eq] at *
      omega
    refine ⟨herror, htie, fun hm hk => ?_⟩
    have hleast := hlow.resolve_left hk
    rw [hm, leadingBit_eq, Nat.cast_pow, Nat.cast_ofNat]
    have hbits : (2 : ℚ) ^ (52 : ℕ) ≤ num / den / 2 ^ k := by
      rw [le_div_iff₀ hpow, ← zpow_natCast, ← zpow_add₀ two_ne_zero, add_comm]
      exact hleast
    linarith
  · -- The ratio was rounded up to the next power of two.
    obtain ⟨rfl, rfl⟩ : e = k + 1 ∧ m = leadingBit := by
      rw [leadingBit_eq] at *
      omega
    have hhalf : (num : ℚ) / den / 2 ^ (k + 1) = num / den / 2 ^ k / 2 := by
      rw [zpow_add_one₀ two_ne_zero, div_mul_eq_div_div]
    have hbelow : (num : ℚ) / den / 2 ^ k < 2 ^ (53 : ℕ) := by
      rw [div_lt_iff₀ hpow, ← zpow_natCast, ← zpow_add₀ two_ne_zero, add_comm]
      exact hhigh
    have hnear := abs_le.mp herror
    rw [leadingBit_eq] at hnear ⊢
    push_cast at hnear
    refine ⟨?_, fun _ => by decide, fun _ _ => ?_⟩
    · rw [hhalf, abs_le]
      push_cast
      constructor <;> linarith
    · rw [hhalf]
      push_cast
      linarith

end Ratios

/-! ## Exact operands -/

/-- A natural with at most 53 bits in front of its last zeros is not rounded. -/
theorem ofNat_exact {a b : Nat} (hzero : a ≠ 0) (hbits : a < 2 ^ 53)
    (hfit : ((a * 2 ^ b : Nat) : ℚ) < overflow) :
    (ofNat (a * 2 ^ b)).isFinite = true ∧ (ofNat (a * 2 ^ b)).size = (a * 2 ^ b : Nat) ∧
      (ofNat (a * 2 ^ b)).isNegative = false := by
  have hnum : a * 2 ^ b ≠ 0 := mul_ne_zero hzero (by positivity)
  obtain ⟨k, m, hleast, -, hlow, herror, htie, hupper, hlower, hround⟩ :=
    ofRatio_spec hnum one_ne_zero false
  have hlt := magnitude_lt_infinity (by rwa [Nat.cast_one, div_one]) hlow herror hupper
  have hsmall : infinityMagnitude < signBit := by decide
  rw [Nat.cast_one, div_one] at hlow herror htie
  have hk : k ≤ b := by
    rcases hlow with rfl | hlow
    · omega
    · have hbound : ((a * 2 ^ b : Nat) : ℚ) < 2 ^ ((53 : ℤ) + b) := by
        have hpow : a * 2 ^ b < 2 ^ 53 * 2 ^ b := Nat.mul_lt_mul_of_pos_right hbits (by positivity)
        rw [zpow_add₀ two_ne_zero, zpow_natCast]
        exact_mod_cast hpow
      have := (zpow_lt_zpow_iff_right₀ one_lt_two).mp (hlow.trans_lt hbound)
      omega
  -- At this exponent the natural has a whole mantissa, which is nearest to itself.
  obtain ⟨c, hc⟩ : ∃ c : Nat, (b : ℤ) = k + c := ⟨(b - k).toNat, by omega⟩
  have hmantissa : ((a * 2 ^ b : Nat) : ℚ) / 2 ^ k = (a * 2 ^ c : Nat) := by
    rw [div_eq_iff (by positivity)]
    push_cast
    rw [← zpow_natCast, hc, zpow_add₀ two_ne_zero, zpow_natCast]
    ring
  rw [hmantissa] at herror htie
  have hm : m = a * 2 ^ c := nearest_unique herror htie (by simp) (by simp)
  rw [ofNat, hround, min_eq_left hlt.le]
  refine ⟨isFinite_ofMagnitude hlt, ?_, isNegative_ofMagnitude (hlt.trans hsmall)⟩
  rw [size_ofMagnitude hupper (by omega) hlt, show (((k + 1074).toNat : ℤ) - 1074) = k by omega, hm,
    ← hmantissa, div_mul_cancel₀ _ (by positivity)]

/-- Powers of ten up to the twenty-second are not rounded. -/
theorem powerOfTen_exact {n : Nat} (hn : n ≤ 22) :
    (powerOfTen n).isFinite = true ∧ (powerOfTen n).size = 10 ^ n ∧
      (powerOfTen n).isNegative = false := by
  have hten : Power.num 10 n = 5 ^ n * 2 ^ n := by
    rw [Power.num, Int.toNat_natCast, ← Nat.mul_pow]
    rfl
  have hcast : ((5 ^ n * 2 ^ n : Nat) : ℚ) = 10 ^ n := by
    rw [← Nat.mul_pow]
    norm_num
  have hspec := ofNat_exact (a := 5 ^ n) (b := n) (by positivity)
    ((Nat.pow_le_pow_right (by decide) hn).trans_lt (by decide)) (by
      rw [hcast]
      exact (pow_le_pow_right₀ (by norm_num) (by omega)).trans_lt pow_ten_lt_overflow)
  rwa [← hten, ← powerOfTen, hten, hcast] at hspec

/-- The quotient of two positive numbers is the number that the exact quotient rounds to. -/
theorem div_of_roundsTo {x y : Binary64} {m : Nat} {e : ℤ} (hx : x.isFinite = true)
    (hy : y.isFinite = true) (hxSize : x.size ≠ 0) (hySize : y.size ≠ 0)
    (hxSign : x.isNegative = false) (hySign : y.isNegative = false) (hfits : Fits m e)
    (h : RoundsTo (x.size / y.size) m e) : x.div y = ofMagnitude false (magnitudeOf m e) := by
  obtain ⟨num, den, hden, hratio, hdiv⟩ := div_eq_ofRatio hx hy hySize
  have hnum : num ≠ 0 := by
    rintro rfl
    rw [Nat.cast_zero, zero_div] at hratio
    exact div_ne_zero hxSize hySize hratio.symm
  rw [hdiv, hxSign, hySign]
  exact ofRatio_of_roundsTo hnum hden hfits (hratio ▸ h) false

end WalletEngine.Binary64
