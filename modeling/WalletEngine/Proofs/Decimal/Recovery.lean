import WalletEngine.Proofs.Binary64.Nearest
import WalletEngine.Proofs.Decimal.Shortest

/-! # Shortest decimals that round back

The search for the shortest decimal goes from coarse grids to fine ones and takes the first decimal
among the reals that round to the number. So if there is a decimal of at most fifteen digits among
them, the one that is found rounds to the number as well and is not written more finely.
-/

namespace WalletEngine.Decimal

open Binary64

/-! ## The interval of a number -/

/-- The interval of a number holds the decimals that round to it. -/
theorem contains_ofNumber_iff {m : Nat} {e : Int} (hm : m ≠ 0) (d : Decimal) :
    (Interval.ofNumber m e).contains d = true ↔ RoundsTo d.toRat m e := by
  have hden : (Interval.ofNumber m e).unitDen ≠ 0 := (Power.den_pos two_pos (e - 2)).ne'
  have hpow : (0 : ℚ) < 2 ^ e := by positivity
  have hunit : (Interval.ofNumber m e).unit = 2 ^ e / 4 := by
    rw [ofNumber_unit, zpow_sub₀ two_ne_zero]
    norm_num
  have hlower : ((Interval.ofNumber m e).lower : ℚ) * (2 ^ e / 4) =
      (if m = leadingBit ∧ e ≠ -1074 then (m : ℚ) - 1 / 4 else m - 1 / 2) * 2 ^ e := by
    have hform : (Interval.ofNumber m e).lower =
        if m = leadingBit ∧ e ≠ -1074 then 4 * m - 1 else 4 * m - 2 := by
      simp only [Interval.ofNumber, Bool.and_eq_true, decide_eq_true_eq, bne_iff_ne]
    rw [hform]
    split
    · rw [Nat.cast_sub (by omega)]
      push_cast
      ring
    · rw [Nat.cast_sub (by omega)]
      push_cast
      ring
  have hupper : ((Interval.ofNumber m e).upper : ℚ) * (2 ^ e / 4) = (m + 1 / 2) * 2 ^ e := by
    rw [Interval.ofNumber]
    push_cast
    ring
  have hclosed : (Interval.ofNumber m e).closed = decide (m % 2 = 0) := rfl
  rw [Interval.contains_iff hden, hunit, hlower, hupper, roundsTo_iff, hclosed]
  simp only [← le_div_iff₀ hpow, ← div_le_iff₀ hpow, ← lt_div_iff₀ hpow, ← div_lt_iff₀ hpow]
  by_cases heven : m % 2 = 0
  · rw [if_pos (decide_eq_true heven)]
    simp [heven]
  · -- The mantissa of a power of two is even.
    have htop : m ≠ leadingBit := by
      rintro rfl
      exact heven (by decide)
    rw [if_neg (by simpa using heven)]
    simp only [htop, false_and, if_false, heven, ne_eq, not_false_eq_true, true_implies]
    exact ⟨fun h => ⟨h.1.le, h.2.le, h⟩, fun h => h.2.2⟩

/-! ## Searching grids -/

/-- A grid with a decimal that rounds to the number gives one. -/
theorem exists_onGrid {m : Nat} {e : Int} {c : Decimal} (hm : m ≠ 0) (hc : RoundsTo c.toRat m e)
    (hne : c.digits ≠ 0) : ∃ d, (Interval.ofNumber m e).onGrid? c.exponent = some d := by
  have hden : (Interval.ofNumber m e).unitDen ≠ 0 := (Power.den_pos two_pos (e - 2)).ne'
  obtain ⟨hlow, hhigh⟩ := Interval.floor_bounds hden c.exponent
  rw [ofNumber_size] at hlow hhigh
  have hpow : (0 : ℚ) < 10 ^ c.exponent := by positivity
  unfold Interval.onGrid?
  simp only
  generalize hfloor : (Interval.ofNumber m e).floor c.exponent = below at hlow hhigh
  -- The multiple next to the number, on the side of the decimal, lies between the two.
  rcases Nat.lt_or_ge below c.digits with hlt | hle
  · have hcontains : (Interval.ofNumber m e).contains ⟨below + 1, c.exponent⟩ = true := by
      refine (contains_ofNumber_iff hm _).mpr (hc.of_between (Or.inr ⟨?_, ?_⟩))
      · rw [toRat]
        push_cast
        exact hhigh.le
      · have hcast : ((below + 1 : Nat) : ℚ) ≤ c.digits := by exact_mod_cast hlt
        exact mul_le_mul_of_nonneg_right hcast hpow.le
    rw [hcontains, Bool.and_true]
    split
    · exact ⟨_, rfl⟩
    · exact ⟨_, rfl⟩
  · have hcontains : (Interval.ofNumber m e).contains ⟨below, c.exponent⟩ = true := by
      refine (contains_ofNumber_iff hm _).mpr (hc.of_between (Or.inl ⟨?_, hlow⟩))
      have hcast : (c.digits : ℚ) ≤ below := by exact_mod_cast hle
      exact mul_le_mul_of_nonneg_right hcast hpow.le
    rw [hcontains, Bool.true_and, bne_iff_ne.mpr (by omega : below ≠ 0), Bool.true_and]
    split
    · exact ⟨_, rfl⟩
    · exact ⟨_, rfl⟩

/-- The search stops at the first grid with a decimal of the interval. -/
theorem search_of_onGrid {i : Interval} {leading : Int} {target : Nat} {d : Decimal}
    (hgrid : i.onGrid? (leading - target + 1) = some d) (fuel : Nat) :
    ∀ count, count ≤ target → target < count + fuel →
      i.contains (i.search leading count fuel) = true ∧
      (i.search leading count fuel).digits ≠ 0 ∧
      leading - target + 1 ≤ (i.search leading count fuel).exponent := by
  induction fuel with
  | zero =>
      intro count hfrom hto
      omega
  | succ fuel ih =>
      intro count hfrom hto
      rw [Interval.search]
      split
      next found hfound =>
        obtain ⟨hexponent, hdigits, -, hcontains⟩ := Interval.onGrid?_spec hfound
        exact ⟨hcontains, hdigits, by omega⟩
      next hnone =>
        have hother : count ≠ target := by
          rintro rfl
          rw [hgrid] at hnone
          cases hnone
        exact ih (count + 1) (by omega) (by omega)

/-! ## The decimal that is found -/

/-- The decimal on a finer grid. -/
theorem toRat_refine (d : Decimal) (n : Nat) :
    (⟨d.digits * 10 ^ n, d.exponent - n⟩ : Decimal).toRat = d.toRat := by
  rw [toRat, toRat, zpow_sub₀ (by norm_num), zpow_natCast]
  push_cast
  field_simp

/-- A decimal that rounds to a number, on a grid that the search comes to. -/
theorem exists_refined {c : Decimal} {size : ℚ} {leading : Int} (hne : c.digits ≠ 0)
    (hdigits : c.digits < 10 ^ 15) (hlow : size ≤ 2 * c.toRat) (hhigh : c.toRat ≤ 3 / 2 * size)
    (hfrom : (10 : ℚ) ^ (leading - 1) ≤ size) (hto : size < 10 ^ (leading + 1)) :
    ∃ d : Decimal, d.toRat = c.toRat ∧ d.digits ≠ 0 ∧ c.exponent - 1 ≤ d.exponent ∧
      leading - 16 ≤ d.exponent ∧ d.exponent ≤ leading ∧
      3 / 2 * size < 3 * 10 ^ 15 * 10 ^ d.exponent := by
  have hten : (1 : ℚ) < 10 := by norm_num
  have hpow : (0 : ℚ) < 10 ^ c.exponent := by positivity
  have hcast : (c.digits : ℚ) < 10 ^ 15 := by exact_mod_cast hdigits
  have hone : (1 : ℚ) ≤ c.digits := by exact_mod_cast Nat.one_le_iff_ne_zero.mpr hne
  have hupper : c.toRat < 10 ^ 15 * 10 ^ c.exponent := mul_lt_mul_of_pos_right hcast hpow
  have hlower : 10 ^ c.exponent ≤ c.toRat := le_mul_of_one_le_left hpow.le hone
  rcases le_or_gt c.exponent leading with hle | hgt
  · refine ⟨c, rfl, hne, by omega, ?_, hle, by linarith⟩
    have hfar : (10 : ℚ) ^ (leading - 1) < 10 ^ (c.exponent + 16) := by
      rw [zpow_add₀ (by norm_num), zpow_ofNat]
      linarith
    have := (zpow_lt_zpow_iff_right₀ hten).mp hfar
    omega
  · -- The decimal is a power of ten just above the number.
    obtain ⟨n, hn⟩ : ∃ n : Nat, c.exponent = leading + n := ⟨(c.exponent - leading).toNat, by omega⟩
    have hfar : (10 : ℚ) ^ c.exponent < 10 ^ (leading + 2) := by
      rw [show leading + 2 = leading + 1 + 1 by omega, zpow_add_one₀ (by norm_num)]
      linarith
    have hnear := (zpow_lt_zpow_iff_right₀ hten).mp hfar
    refine ⟨⟨c.digits * 10 ^ n, c.exponent - n⟩, toRat_refine c n,
      mul_ne_zero hne (by positivity), ?_, ?_, ?_, ?_⟩
    · change c.exponent - 1 ≤ c.exponent - n
      omega
    · change leading - 16 ≤ c.exponent - n
      omega
    · change c.exponent - n ≤ leading
      omega
    · rw [show c.exponent - n = leading by omega]
      rw [zpow_add_one₀ (by norm_num)] at hto
      have hleading : (0 : ℚ) < 10 ^ leading := by positivity
      linarith

/-- Where a decimal of at most fifteen digits rounds to a number, so does the shortest decimal of the
number. It has hardly more digits than that, and hardly finer ones. -/
theorem shortest_of_roundsTo {m : Nat} {e : Int} {c : Decimal} (hfits : Fits m e) (hm : m ≠ 0)
    (hc : RoundsTo c.toRat m e) (hne : c.digits ≠ 0) (hdigits : c.digits < 10 ^ 15) :
    RoundsTo (shortest m e).toRat m e ∧ (shortest m e).digits ≠ 0 ∧
      (shortest m e).digits < 3 * 10 ^ 15 ∧ c.exponent - 1 ≤ (shortest m e).exponent := by
  have hsize := ofNumber_size m e
  have hsmall := le_ofNumber_size hm hfits.least
  have hlarge := ofNumber_size_lt (e := e) hfits.mantissa hfits.greatest
  have hnum : (Interval.ofNumber m e).unitNum ≠ 0 := (Power.num_pos two_pos (e - 2)).ne'
  have hden : (Interval.ofNumber m e).unitDen ≠ 0 := (Power.den_pos two_pos (e - 2)).ne'
  have hvalue : (Interval.ofNumber m e).value ≠ 0 := by
    change 4 * m ≠ 0
    omega
  have hfirst : 1 ≤ m := Nat.one_le_iff_ne_zero.mpr hm
  obtain ⟨hfrom, hto, -⟩ := Interval.leading_spec hvalue hnum hden hsmall hlarge
  rw [hsize] at hfrom hto
  have hcBounds := hc.size_bounds hfirst
  rw [Nat.cast_one, one_mul, abs_le] at hcBounds
  obtain ⟨d, hd, hdNe, hexponent, hlow, hhigh, hfit⟩ :=
    exists_refined hne hdigits (by linarith) (by linarith) hfrom hto
  obtain ⟨target, htarget⟩ : ∃ target : Nat,
      (Interval.ofNumber m e).leading - target + 1 = d.exponent :=
    ⟨((Interval.ofNumber m e).leading - d.exponent + 1).toNat, by omega⟩
  obtain ⟨found, hfound⟩ := exists_onGrid hm (hd ▸ hc) hdNe
  obtain ⟨hcontains, hnonzero, hleast⟩ :=
    search_of_onGrid (htarget ▸ hfound) 17 1 (by omega) (by omega)
  rw [shortest]
  generalize (Interval.ofNumber m e).search (Interval.ofNumber m e).leading 1 17 = raw at *
  obtain ⟨hne', -, hsame, hfromExp, -⟩ := normalize_spec 17 raw hnonzero
  have hrounds : RoundsTo (raw.normalize 17).toRat m e :=
    hsame ▸ (contains_ofNumber_iff hm raw).mp hcontains
  refine ⟨hrounds, hne', ?_, by omega⟩
  have hbounds := hrounds.size_bounds hfirst
  rw [Nat.cast_one, one_mul, abs_le] at hbounds
  have hgrid : (10 : ℚ) ^ d.exponent ≤ 10 ^ (raw.normalize 17).exponent :=
    zpow_le_zpow_right₀ (by norm_num) (by omega)
  have hpow : (0 : ℚ) < 10 ^ (raw.normalize 17).exponent := by positivity
  have hlt : ((raw.normalize 17).digits : ℚ) * 10 ^ (raw.normalize 17).exponent <
      3 * 10 ^ 15 * 10 ^ (raw.normalize 17).exponent := by
    change (raw.normalize 17).toRat < _
    linarith
  exact_mod_cast lt_of_mul_lt_mul_right hlt hpow.le

/-- If the decimal is a natural, so that the number is one, the two are close to each other. -/
theorem toRat_shortest_lt {m : Nat} {e : Int} {c : Decimal} (hfits : Fits m e) (hm : m ≠ 0)
    (hc : RoundsTo c.toRat m e) (hsize : c.toRat < 10 ^ 15)
    (hrounds : RoundsTo (shortest m e).toRat m e) (hne : (shortest m e).digits ≠ 0)
    (hexponent : 0 ≤ (shortest m e).exponent) :
    (shortest m e).toRat < 5 / 3 * 10 ^ 15 := by
  have htwo : 2 ≤ m := by
    by_contra hsmall
    obtain rfl : m = 1 := by omega
    obtain rfl : e = -1074 := hfits.leading.resolve_right (by decide)
    -- The least number of all is no natural.
    have hbounds := hrounds.size_bounds le_rfl
    have hone : 1 ≤ (shortest 1 (-1074)).toRat := by
      have hdigits : (1 : ℚ) ≤ (shortest 1 (-1074)).digits := by
        exact_mod_cast Nat.one_le_iff_ne_zero.mpr hne
      exact one_le_mul_of_one_le_of_one_le hdigits (one_le_zpow₀ (by norm_num) hexponent)
    have htiny : (2 : ℚ) ^ (-1074 : ℤ) ≤ 1 / 2 := by
      calc (2 : ℚ) ^ (-1074 : ℤ) ≤ 2 ^ (-1 : ℤ) :=
            zpow_le_zpow_right₀ one_le_two (by decide)
        _ = 1 / 2 := by norm_num
    rw [Nat.cast_one, one_mul, one_mul, abs_le] at hbounds
    linarith
  have hcBounds := hc.size_bounds htwo
  have hbounds := hrounds.size_bounds htwo
  rw [Nat.cast_ofNat, ← le_div_iff₀' two_pos, abs_le] at hcBounds hbounds
  linarith

end WalletEngine.Decimal
