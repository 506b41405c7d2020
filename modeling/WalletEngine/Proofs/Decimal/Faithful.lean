import WalletEngine.Proofs.Decimal.Recovery

/-! # Every number is told by its shortest decimal

The estimate of the leading digit is not too high for any number, so the last of the seventeen grids
is finer than the interval of the number. The search therefore always finds a decimal that rounds to
the number.
-/

namespace WalletEngine.Decimal

open Binary64

/-! ## The leading digit -/

/-- The power of ten that is estimated from a power of two is not above it. -/
theorem estimate_le {bits guess : ℤ} (hbits : |bits| ≤ 1100)
    (hguess : guess = Int.fdiv (bits * 30103) 100000) : (10 : ℚ) ^ guess ≤ 2 ^ bits := by
  have hall : ∀ n : Fin 1101, 10 ^ (n.val * 30103 / 100000) ≤ 2 ^ n.val ∧
      2 ^ n.val ≤ 10 ^ ((n.val * 30103 + 99999) / 100000) := by
    decide +kernel
  rw [Int.fdiv_eq_ediv_of_nonneg _ (by decide)] at hguess
  obtain ⟨n, rfl | rfl⟩ := bits.eq_nat_or_neg
  · rw [Nat.abs_cast] at hbits
    have hle := (hall ⟨n, by omega⟩).1
    rw [show guess = (n * 30103 / 100000 : Nat) by omega, zpow_natCast, zpow_natCast]
    exact_mod_cast hle
  · rw [abs_neg, Nat.abs_cast] at hbits
    have hle := (hall ⟨n, by omega⟩).2
    rw [show guess = -((n * 30103 + 99999) / 100000 : Nat) by omega, zpow_neg, zpow_neg,
      inv_le_inv₀ (by positivity) (by positivity), zpow_natCast, zpow_natCast]
    exact_mod_cast hle

/-- A ratio to a power of two is not below the power of two that its logarithm tells. -/
theorem zpow_log2_le {num k : Nat} (hnum : num ≠ 0) {bits : ℤ}
    (hbits : (num.log2 : ℤ) - (2 ^ k).log2 = bits) : (2 : ℚ) ^ bits ≤ num / (2 ^ k : Nat) := by
  rw [Nat.log2_two_pow] at hbits
  rw [← hbits, zpow_sub₀ two_ne_zero, zpow_natCast, zpow_natCast]
  push_cast
  gcongr
  exact_mod_cast Nat.log2_self_le hnum

/-- The leading digit of a number is not estimated too high. -/
theorem pow_leading_le {m : Nat} {e : Int} (hfits : Fits m e) (hm : m ≠ 0) :
    (10 : ℚ) ^ (Interval.ofNumber m e).leading ≤ m * 2 ^ e := by
  have hsize := ofNumber_size m e
  have hlarge := ofNumber_size_lt (e := e) hfits.mantissa hfits.greatest
  have hsmall := le_ofNumber_size hm hfits.least
  have hnum : (Interval.ofNumber m e).unitNum ≠ 0 := (Power.num_pos two_pos (e - 2)).ne'
  have hden : (Interval.ofNumber m e).unitDen ≠ 0 := (Power.den_pos two_pos (e - 2)).ne'
  have hvalue : (Interval.ofNumber m e).value ≠ 0 := by
    change 4 * m ≠ 0
    omega
  obtain ⟨bits, guess, hbits, hrange, hguess, -, -, hleading⟩ :=
    Interval.leading_estimate hvalue hnum hden hsmall hlarge
  rw [← hsize]
  rcases hleading with ⟨hleading, -⟩ | ⟨hleading, hbelow⟩
  · rw [hleading]
    have hfrom := zpow_log2_le (k := (-(e - 2)).toNat) (mul_ne_zero hvalue hnum) hbits
    rw [Nat.cast_mul, mul_div_assoc] at hfrom
    exact (estimate_le hrange hguess).trans hfrom
  · rwa [hleading]

/-! ## The finest grid -/

/-- The grid of seventeen digits has a decimal that rounds to the number. -/
theorem exists_finest {m : Nat} {e leading : Int} (hfits : Fits m e) (hm : m ≠ 0)
    (hleading : (10 : ℚ) ^ leading ≤ m * 2 ^ e) :
    ∃ c : Decimal, c.exponent = leading - 16 ∧ c.digits ≠ 0 ∧ RoundsTo c.toRat m e := by
  have hpow : (0 : ℚ) < 2 ^ e := by positivity
  have hgrid : (0 : ℚ) < 10 ^ (leading - 16) := by positivity
  have hsplit : (10 : ℚ) ^ leading = 10 ^ 16 * 10 ^ (leading - 16) := by
    rw [← zpow_natCast, ← zpow_add₀ (by norm_num)]
    congr 1
    omega
  have hmantissa : (m : ℚ) < 2 ^ 53 := by exact_mod_cast hfits.mantissa
  -- One step of the grid is less than the distance between neighbours.
  have hstep : (10 : ℚ) ^ (leading - 16) / 2 ^ e ≤ m / 10 ^ 16 := by
    rw [div_le_div_iff₀ hpow (by positivity)]
    linarith
  have hnearest := abs_sub_round ((m : ℚ) * 2 ^ e / 10 ^ (leading - 16))
  have hcount : (1 : ℚ) ≤ m * 2 ^ e / 10 ^ (leading - 16) := by
    rw [le_div_iff₀ hgrid, one_mul]
    linarith
  obtain ⟨n, hn⟩ : ∃ n : Nat, round ((m : ℚ) * 2 ^ e / 10 ^ (leading - 16)) = n :=
    Int.eq_ofNat_of_zero_le (by rw [round_eq]; exact Int.floor_nonneg.mpr (by linarith))
  rw [hn, Int.cast_natCast] at hnearest
  have herror : |(m : ℚ) - (⟨n, leading - 16⟩ : Decimal).toRat / 2 ^ e| ≤
      1 / 2 * (m / 10 ^ 16) := by
    have hfactor : (m : ℚ) - (⟨n, leading - 16⟩ : Decimal).toRat / 2 ^ e =
        (m * 2 ^ e / 10 ^ (leading - 16) - n) * (10 ^ (leading - 16) / 2 ^ e) := by
      rw [toRat]
      field_simp
    rw [hfactor, abs_mul, abs_of_pos (div_pos hgrid hpow)]
    gcongr
  refine ⟨⟨n, leading - 16⟩, rfl, ?_, ?_, ?_, ?_⟩
  · rintro rfl
    rw [Nat.cast_zero, sub_zero, abs_of_pos (by linarith)] at hnearest
    linarith
  · refine herror.trans ?_
    linarith
  · intro htie
    exact absurd (htie.symm.trans_le herror) (by linarith)
  · rintro rfl -
    have hbound := (abs_le.mp herror).2
    rw [leadingBit_eq] at hbound ⊢
    push_cast at hbound ⊢
    linarith

/-- The shortest decimal of a number rounds to the number. -/
theorem roundsTo_shortest {m : Nat} {e : Int} (hfits : Fits m e) (hm : m ≠ 0) :
    RoundsTo (shortest m e).toRat m e ∧ (shortest m e).digits ≠ 0 := by
  obtain ⟨c, hexponent, hne, hc⟩ := exists_finest hfits hm (pow_leading_le hfits hm)
  obtain ⟨found, hfound⟩ := exists_onGrid hm hc hne
  have htarget : (Interval.ofNumber m e).leading - (17 : Nat) + 1 = c.exponent := by omega
  obtain ⟨hcontains, hnonzero, -⟩ :=
    search_of_onGrid (htarget ▸ hfound) 17 1 (by omega) (by omega)
  obtain ⟨hne', -, hsame, -, -⟩ := normalize_spec 17 _ hnonzero
  rw [shortest]
  exact ⟨hsame ▸ (contains_ofNumber_iff hm _).mp hcontains, hne'⟩

end WalletEngine.Decimal
