import Mathlib
import WalletEngine.Decimal.Shortest
import WalletEngine.Proofs.Binary64.Rounding

/-! # The size of the shortest decimal

The search for the shortest decimal starts from an estimate of its leading digit. The estimate is
good enough for seventeen digits to suffice, and whatever the search finds is at most the upper end
of the interval of reals that round to the number.
-/

namespace WalletEngine.Decimal

/-! ## The logarithm of two -/

theorem two_pow_bounds : (10 : ℚ) ^ 30102 ≤ 2 ^ 100000 ∧ (2 : ℚ) ^ 100000 ≤ 10 ^ 30103 := by
  have hlow : 10 ^ 30102 ≤ 2 ^ 100000 := by decide +kernel
  have hhigh : 2 ^ 100000 ≤ 10 ^ 30103 := by decide +kernel
  have hlow' := Nat.cast_le (α := ℚ).mpr hlow
  have hhigh' := Nat.cast_le (α := ℚ).mpr hhigh
  rw [Nat.cast_pow, Nat.cast_pow] at hlow' hhigh'
  exact ⟨hlow', hhigh'⟩

/-- The ratio 30103 / 100000 is the decimal logarithm of two, up to one part in 100000. -/
theorem zpow_two_bounds (c : ℤ) :
    (10 : ℚ) ^ (30103 * c - |c|) ≤ (2 ^ c) ^ 100000 ∧
      ((2 : ℚ) ^ c) ^ 100000 ≤ 10 ^ (30103 * c + |c|) := by
  obtain ⟨hlow, hhigh⟩ := two_pow_bounds
  have hswap : ((2 : ℚ) ^ c) ^ 100000 = (2 ^ 100000) ^ c := by
    rw [← zpow_natCast, ← zpow_natCast, zpow_comm]
  rw [hswap]
  generalize (2 : ℚ) ^ 100000 = power at hlow hhigh ⊢
  have hten : ∀ k : Nat, ∀ n : Nat, ((10 : ℚ) ^ k) ^ n = 10 ^ ((k : ℤ) * n) := by
    intro k n
    rw [← pow_mul, ← Nat.cast_mul, zpow_natCast]
  have hpos : 0 < power := lt_of_lt_of_le (by positivity) hlow
  have hone : ∀ {a b : ℤ}, a ≤ b → (10 : ℚ) ^ a ≤ 10 ^ b :=
    fun h => zpow_le_zpow_right₀ (by norm_num) h
  have hup : ∀ n : Nat, power ^ n ≤ 10 ^ ((30103 : ℤ) * n) :=
    fun n => (pow_le_pow_left₀ hpos.le hhigh n).trans_eq (hten 30103 n)
  have hdown : ∀ n : Nat, (10 : ℚ) ^ ((30102 : ℤ) * n) ≤ power ^ n :=
    fun n => (hten 30102 n).symm.trans_le (pow_le_pow_left₀ (by positivity) hlow n)
  obtain ⟨n, rfl | rfl⟩ := c.eq_nat_or_neg
  · rw [zpow_natCast, Nat.abs_cast]
    exact ⟨(hone (by omega)).trans (hdown n), (hup n).trans (hone (by omega))⟩
  · rw [zpow_neg, zpow_natCast, abs_neg, Nat.abs_cast]
    constructor
    · rw [← inv_le_inv₀ (by positivity) (by positivity), inv_inv, ← zpow_neg]
      exact (hup n).trans (hone (by omega))
    · rw [← inv_le_inv₀ (by positivity) (by positivity), inv_inv, ← zpow_neg]
      exact (hone (by omega)).trans (hdown n)

/-- Twice a power of two and a power of ten, with the exponent that is estimated from it. -/
theorem estimate_bounds {bits guess : ℤ} (hbits : |bits| ≤ 1100)
    (hguess : guess = Int.fdiv (bits * 30103) 100000) :
    (2 : ℚ) ^ (bits + 1) ≤ 10 ^ (guess + 2) ∧ (10 : ℚ) ^ (guess - 1) ≤ 2 ^ (bits - 1) ∧
      |guess| ≤ 332 := by
  rw [Int.fdiv_eq_ediv_of_nonneg _ (by decide)] at hguess
  obtain ⟨hbelow, habove⟩ := abs_le.mp hbits
  have hten : ∀ c : ℤ, ((10 : ℚ) ^ c) ^ 100000 = 10 ^ (c * 100000) := by
    intro c
    rw [← zpow_natCast, ← zpow_mul]
    rfl
  have hone : ∀ {a b : ℤ}, a ≤ b → (10 : ℚ) ^ a ≤ 10 ^ b :=
    fun h => zpow_le_zpow_right₀ (by norm_num) h
  refine ⟨?_, ?_, by rw [abs_le]; omega⟩
  · have habs : |bits + 1| ≤ 1101 := by
      rw [abs_le]
      omega
    refine (pow_le_pow_iff_left₀ (by positivity) (by positivity) (n := 100000) (by decide)).mp ?_
    rw [hten]
    exact (zpow_two_bounds _).2.trans (hone (by omega))
  · have habs : |bits - 1| ≤ 1101 := by
      rw [abs_le]
      omega
    refine (pow_le_pow_iff_left₀ (by positivity) (by positivity) (n := 100000) (by decide)).mp ?_
    rw [hten]
    exact (hone (by omega)).trans (zpow_two_bounds _).1

/-! ## What the grids hold -/

/-- The number that a decimal stands for. -/
def toRat (d : Decimal) : ℚ := d.digits * 10 ^ d.exponent

namespace Interval

/-- The unit as a rational number. -/
def unit (i : Interval) : ℚ := i.unitNum / i.unitDen

variable {i : Interval}

theorem floor_bounds (hden : i.unitDen ≠ 0) (exponent : Int) :
    (i.floor exponent : ℚ) * 10 ^ exponent ≤ i.value * i.unit ∧
      i.value * i.unit < (i.floor exponent + 1) * 10 ^ exponent := by
  have hpow : (0 : ℚ) < 10 ^ exponent := by positivity
  have hpos : 0 < Power.num 10 exponent * i.unitDen :=
    Nat.mul_pos (Power.num_pos (by decide) exponent) (Nat.pos_of_ne_zero hden)
  have hratio : ((i.value * i.unitNum * Power.den 10 exponent : Nat) : ℚ) /
      (Power.num 10 exponent * i.unitDen : Nat) = i.value * i.unit / 10 ^ exponent := by
    have hpowDen : (Power.den 10 exponent : ℚ) ≠ 0 := by
      exact_mod_cast (Power.den_pos (by decide) exponent).ne'
    have hunitDen : (i.unitDen : ℚ) ≠ 0 := by exact_mod_cast hden
    rw [Nat.cast_mul, Nat.cast_mul, Nat.cast_mul, Power.num_eq (by decide) exponent, unit]
    push_cast
    field_simp
  have hlow := Nat.cast_div_le (α := ℚ) (m := i.value * i.unitNum * Power.den 10 exponent)
    (n := Power.num 10 exponent * i.unitDen)
  have hhigh := Nat.lt_floor_add_one
    (((i.value * i.unitNum * Power.den 10 exponent : Nat) : ℚ) /
      (Power.num 10 exponent * i.unitDen : Nat))
  rw [Nat.floor_div_eq_div] at hhigh
  rw [hratio] at hlow hhigh
  exact ⟨(le_div_iff₀ hpow).mp hlow, (div_lt_iff₀ hpow).mp hhigh⟩

/-- A decimal is in the interval if its number is. -/
theorem contains_iff (hden : i.unitDen ≠ 0) (d : Decimal) : i.contains d = true ↔
    if i.closed then i.lower * i.unit ≤ d.toRat ∧ d.toRat ≤ i.upper * i.unit
    else i.lower * i.unit < d.toRat ∧ d.toRat < i.upper * i.unit := by
  have hpowDen : (0 : ℚ) < Power.den 10 d.exponent := by
    exact_mod_cast Power.den_pos (by decide) d.exponent
  have hunitDen : (0 : ℚ) < i.unitDen := by exact_mod_cast Nat.pos_of_ne_zero hden
  have hscale (n : Nat) : n * i.unit * (i.unitDen * Power.den 10 d.exponent) =
      (n * (i.unitNum * Power.den 10 d.exponent) : Nat) := by
    rw [unit]
    push_cast
    field_simp
  have hpoint : d.toRat * (i.unitDen * Power.den 10 d.exponent) =
      (d.digits * Power.num 10 d.exponent * i.unitDen : Nat) := by
    rw [toRat]
    push_cast
    rw [Power.num_eq (by decide) d.exponent]
    push_cast
    ring
  have hfactor : (0 : ℚ) < i.unitDen * Power.den 10 d.exponent := mul_pos hunitDen hpowDen
  have hlowLe : i.lower * i.unit ≤ d.toRat ↔ i.lower * (i.unitNum * Power.den 10 d.exponent) ≤
      d.digits * Power.num 10 d.exponent * i.unitDen := by
    rw [← mul_le_mul_iff_left₀ hfactor, hscale, hpoint, Nat.cast_le]
  have hhighLe : d.toRat ≤ i.upper * i.unit ↔ d.digits * Power.num 10 d.exponent * i.unitDen ≤
      i.upper * (i.unitNum * Power.den 10 d.exponent) := by
    rw [← mul_le_mul_iff_left₀ hfactor, hscale, hpoint, Nat.cast_le]
  have hlowLt : i.lower * i.unit < d.toRat ↔ i.lower * (i.unitNum * Power.den 10 d.exponent) <
      d.digits * Power.num 10 d.exponent * i.unitDen := by
    rw [← mul_lt_mul_iff_left₀ hfactor, hscale, hpoint, Nat.cast_lt]
  have hhighLt : d.toRat < i.upper * i.unit ↔ d.digits * Power.num 10 d.exponent * i.unitDen <
      i.upper * (i.unitNum * Power.den 10 d.exponent) := by
    rw [← mul_lt_mul_iff_left₀ hfactor, hscale, hpoint, Nat.cast_lt]
  rw [hlowLe, hhighLe, hlowLt, hhighLt]
  unfold contains
  cases i.closed <;> simp

/-- A decimal in the interval is at most the upper end. -/
theorem toRat_le_of_contains {d : Decimal} (hden : i.unitDen ≠ 0) (h : i.contains d = true) :
    d.toRat ≤ i.upper * i.unit := by
  have hbounds := (contains_iff hden d).mp h
  split at hbounds
  · exact hbounds.2
  · exact hbounds.2.le

/-- What one grid gives: a decimal of the interval next to its value. -/
theorem onGrid?_spec {exponent : Int} {d : Decimal}
    (h : i.onGrid? exponent = some d) :
    d.exponent = exponent ∧ d.digits ≠ 0 ∧ d.digits ≤ i.floor exponent + 1 ∧
      i.contains d = true := by
  unfold onGrid? at h
  simp only at h
  split at h
  next hboth =>
    obtain ⟨hlow, hhigh⟩ := Bool.and_eq_true_iff.mp hboth
    obtain ⟨hlow, hzero⟩ := Bool.and_eq_true_iff.mp hlow
    cases h
    have hnearest : i.nearest (i.floor exponent) exponent = i.floor exponent ∨
        i.nearest (i.floor exponent) exponent = i.floor exponent + 1 := by
      unfold nearest
      simp only
      split
      · exact Or.inl rfl
      · exact Or.inr rfl
    rcases hnearest with hdigits | hdigits
    · rw [hdigits]
      exact ⟨rfl, by simpa using hzero, Nat.le_succ _, hlow⟩
    · rw [hdigits]
      exact ⟨rfl, Nat.succ_ne_zero _, le_rfl, hhigh⟩
  next hboth =>
  split at h
  next hlow =>
    obtain ⟨hlow, hzero⟩ := Bool.and_eq_true_iff.mp hlow
    cases h
    exact ⟨rfl, by simpa using hzero, Nat.le_succ _, hlow⟩
  next hlow =>
  split at h
  next hhigh =>
    cases h
    exact ⟨rfl, Nat.succ_ne_zero _, le_rfl, hhigh⟩
  next => cases h

/-- The decimal that is found is at most the upper end, and its last digit is at most sixteen
places behind the leading one. -/
theorem search_spec (hden : i.unitDen ≠ 0) (hupper : i.value ≤ i.upper) {leading : Int}
    (hfloor : i.floor (leading - 16) ≠ 0) (fuel : Nat) :
    ∀ count, 1 ≤ count → count + fuel = 18 →
      (i.search leading count fuel).digits ≠ 0 ∧
      (i.search leading count fuel).digits ≤ i.floor (i.search leading count fuel).exponent + 1 ∧
      (i.search leading count fuel).toRat ≤ i.upper * i.unit ∧
      leading - 16 ≤ (i.search leading count fuel).exponent ∧
      (i.search leading count fuel).exponent ≤ leading := by
  induction fuel with
  | zero =>
      intro count _ _
      refine ⟨hfloor, Nat.le_succ _, ?_, le_rfl, ?_⟩
      · have hunit : 0 ≤ i.unit := div_nonneg (Nat.cast_nonneg _) (Nat.cast_nonneg _)
        exact (floor_bounds hden _).1.trans
          (mul_le_mul_of_nonneg_right (Nat.cast_le.mpr hupper) hunit)
      · change leading - 16 ≤ leading
        omega
  | succ fuel ih =>
      intro count hcount hsum
      rw [search]
      split
      next d hgrid =>
        obtain ⟨hexponent, hdigits, hbelow, hcontains⟩ := onGrid?_spec hgrid
        rw [hexponent]
        exact ⟨hdigits, hbelow, toRat_le_of_contains hden hcontains, by omega, by omega⟩
      next => exact ih (count + 1) (by omega) (by omega)

/-- The leading digit comes from the logarithm of the value to the base two. The estimate is raised by
one if a power of ten more is still not above the value. -/
theorem leading_estimate (hvalue : i.value ≠ 0) (hnum : i.unitNum ≠ 0) (hden : i.unitDen ≠ 0)
    (hsmall : (2 : ℚ) ^ (-1074 : ℤ) ≤ i.value * i.unit)
    (hlarge : i.value * i.unit < 2 ^ (1024 : ℤ)) :
    ∃ bits guess : ℤ, ((i.value * i.unitNum).log2 : ℤ) - i.unitDen.log2 = bits ∧
      |bits| ≤ 1100 ∧ guess = Int.fdiv (bits * 30103) 100000 ∧
      (2 : ℚ) ^ (bits - 1) ≤ i.value * i.unit ∧ i.value * i.unit < 2 ^ (bits + 1) ∧
      (i.leading = guess ∧ i.value * i.unit < 10 ^ (guess + 1) ∨
        i.leading = guess + 1 ∧ (10 : ℚ) ^ (guess + 1) ≤ i.value * i.unit) := by
  generalize hbits : ((i.value * i.unitNum).log2 : Int) - i.unitDen.log2 = bits
  obtain ⟨hlow, hhigh⟩ := Binary64.log2_ratio_bounds (mul_ne_zero hvalue hnum) hden hbits
  rw [Nat.cast_mul, mul_div_assoc, ← unit] at hlow hhigh
  have hrange : |bits| ≤ 1100 := by
    have hmin := (zpow_lt_zpow_iff_right₀ one_lt_two).mp (hsmall.trans_lt hhigh)
    have hmax := (zpow_lt_zpow_iff_right₀ one_lt_two).mp (hlow.trans_lt hlarge)
    rw [abs_le]
    omega
  generalize hguess : Int.fdiv (bits * 30103) 100000 = guess
  have hleading : i.leading = if i.floor (guess + 1) = 0 then guess else guess + 1 := by
    simp only [leading, hbits, hguess]
  have hfloor := floor_bounds hden (i := i) (guess + 1)
  refine ⟨bits, guess, rfl, hrange, hguess.symm, hlow, hhigh, ?_⟩
  split at hleading
  next hzero =>
    rw [hzero, Nat.cast_zero, zero_add, one_mul] at hfloor
    exact .inl ⟨hleading, hfloor.2⟩
  next hne =>
    have hone : (1 : ℚ) ≤ i.floor (guess + 1) := by
      exact_mod_cast Nat.one_le_iff_ne_zero.mpr hne
    exact .inr ⟨hleading, (le_mul_of_one_le_left (by positivity) hone).trans hfloor.1⟩

/-- The leading digit is not estimated too low, and at most one place too high. -/
theorem leading_spec (hvalue : i.value ≠ 0) (hnum : i.unitNum ≠ 0) (hden : i.unitDen ≠ 0)
    (hsmall : (2 : ℚ) ^ (-1074 : ℤ) ≤ i.value * i.unit)
    (hlarge : i.value * i.unit < 2 ^ (1024 : ℤ)) :
    (10 : ℚ) ^ (i.leading - 1) ≤ i.value * i.unit ∧
      i.value * i.unit < 10 ^ (i.leading + 1) ∧ |i.leading| ≤ 333 := by
  obtain ⟨bits, guess, -, hrange, hguess, hlow, hhigh, hleading⟩ :=
    leading_estimate hvalue hnum hden hsmall hlarge
  obtain ⟨hup, hdown, hsize⟩ := estimate_bounds hrange hguess
  rw [abs_le] at hsize
  rcases hleading with ⟨hleading, habove⟩ | ⟨hleading, hbelow⟩
  · rw [hleading]
    refine ⟨?_, habove, abs_le.mpr (by omega)⟩
    exact (zpow_le_zpow_right₀ (by norm_num) (by omega)).trans (hdown.trans hlow)
  · rw [hleading]
    refine ⟨(zpow_le_zpow_right₀ (by norm_num) (by omega)).trans hbelow, hhigh.trans_le ?_,
      abs_le.mpr (by omega)⟩
    rw [add_assoc]
    exact hup

end Interval

/-! ## The shortest decimal -/

theorem normalize_spec (fuel : Nat) (d : Decimal) (hd : d.digits ≠ 0) :
    (d.normalize fuel).digits ≠ 0 ∧ (d.normalize fuel).digits ≤ d.digits ∧
      (d.normalize fuel).toRat = d.toRat ∧ d.exponent ≤ (d.normalize fuel).exponent ∧
      (d.normalize fuel).exponent ≤ d.exponent + fuel := by
  induction fuel generalizing d with
  | zero => exact ⟨hd, le_rfl, rfl, le_rfl, by simp [normalize]⟩
  | succ fuel ih =>
      rw [normalize]
      split
      next hten =>
        obtain ⟨-, hmod⟩ := Bool.and_eq_true_iff.mp hten
        have hmod : d.digits % 10 = 0 := by simpa using hmod
        have hmul : d.digits = 10 * (d.digits / 10) := by omega
        obtain ⟨hne, hle, hvalue, hfrom, hto⟩ := ih ⟨d.digits / 10, d.exponent + 1⟩
          (by change d.digits / 10 ≠ 0; omega)
        refine ⟨hne, hle.trans (Nat.div_le_self _ _), hvalue.trans ?_, ?_, ?_⟩
        · have hcast : (d.digits : ℚ) = 10 * (d.digits / 10 : Nat) := by exact_mod_cast hmul
          rw [toRat, toRat, hcast, zpow_add_one₀ (by norm_num)]
          ring
        · exact (Int.le_add_one le_rfl).trans hfrom
        · refine hto.trans ?_
          push_cast
          omega
      next => exact ⟨hd, le_rfl, rfl, le_rfl, by omega⟩

theorem ofNumber_unit (m : Nat) (e : Int) : (Interval.ofNumber m e).unit = 2 ^ (e - 2) := by
  rw [Interval.unit]
  exact (Power.num_div_den two_pos (e - 2)).trans (by rw [Nat.cast_ofNat])

/-- The number in the middle of its interval. -/
theorem ofNumber_size (m : Nat) (e : Int) :
    ((Interval.ofNumber m e).value : ℚ) * (Interval.ofNumber m e).unit = m * 2 ^ e := by
  rw [ofNumber_unit, show (Interval.ofNumber m e).value = 4 * m from rfl, zpow_sub₀ two_ne_zero]
  push_cast
  ring

theorem le_ofNumber_size {m : Nat} {e : Int} (hm : m ≠ 0) (hlow : -1074 ≤ e) :
    (2 : ℚ) ^ (-1074 : ℤ) ≤ (Interval.ofNumber m e).value * (Interval.ofNumber m e).unit := by
  have hone : (1 : ℚ) ≤ m := by exact_mod_cast Nat.one_le_iff_ne_zero.mpr hm
  rw [ofNumber_size]
  calc (2 : ℚ) ^ (-1074 : ℤ) ≤ 2 ^ e := zpow_le_zpow_right₀ one_le_two hlow
    _ ≤ m * 2 ^ e := le_mul_of_one_le_left (by positivity) hone

theorem ofNumber_size_lt {m : Nat} {e : Int} (hfit : m < 2 ^ 53) (hhigh : e ≤ 971) :
    ((Interval.ofNumber m e).value : ℚ) * (Interval.ofNumber m e).unit < 2 ^ (1024 : ℤ) := by
  have hmantissa : (m : ℚ) < 2 ^ (53 : ℤ) := by
    rw [zpow_ofNat]
    exact_mod_cast hfit
  rw [ofNumber_size]
  calc (m : ℚ) * 2 ^ e < 2 ^ (53 : ℤ) * 2 ^ e := by gcongr
    _ ≤ 2 ^ (53 : ℤ) * 2 ^ (971 : ℤ) := by
        gcongr
        exact one_le_two
    _ = 2 ^ (1024 : ℤ) := by rw [← zpow_add₀ two_ne_zero]; rfl

/-- The shortest decimal of a positive number has at most seventeen digits, up to the power of ten
itself, and is at most half a unit of the last place above the number. -/
theorem shortest_spec {m : Nat} {e : Int} (hm : m ≠ 0) (hfit : m < 2 ^ 53) (hlow : -1074 ≤ e)
    (hhigh : e ≤ 971) :
    (shortest m e).digits ≠ 0 ∧ (shortest m e).digits ≤ 10 ^ 17 ∧
      (shortest m e).toRat ≤ (4 * m + 2) * 2 ^ (e - 2) ∧ |(shortest m e).exponent| ≤ 400 := by
  have hsmall := le_ofNumber_size hm hlow
  have hlarge := ofNumber_size_lt hfit hhigh
  have hunit := ofNumber_unit m e
  have hnum : (Interval.ofNumber m e).unitNum ≠ 0 := (Power.num_pos two_pos (e - 2)).ne'
  have hden : (Interval.ofNumber m e).unitDen ≠ 0 := (Power.den_pos two_pos (e - 2)).ne'
  have hvalue : (Interval.ofNumber m e).value = 4 * m := rfl
  have hupper : (Interval.ofNumber m e).upper = 4 * m + 2 := rfl
  rw [shortest]
  generalize Interval.ofNumber m e = i at hsmall hlarge hunit hnum hden hvalue hupper ⊢
  obtain ⟨hfrom, hto, hleading⟩ :=
    Interval.leading_spec (by omega : i.value ≠ 0) hnum hden hsmall hlarge
  have hten : ∀ {a b : ℤ}, a ≤ b → (10 : ℚ) ^ a ≤ 10 ^ b :=
    fun h => zpow_le_zpow_right₀ (by norm_num) h
  -- The search may end with the floor at seventeen digits, so that must not be zero.
  have hfloor : i.floor (i.leading - 16) ≠ 0 := by
    intro hzero
    have hbelow := (Interval.floor_bounds hden (i.leading - 16)).2
    rw [hzero, Nat.cast_zero, zero_add, one_mul] at hbelow
    exact absurd (hbelow.trans_le (hten (by omega))) (not_lt.mpr hfrom)
  obtain ⟨hdigits, hbelow, hvalueUpper, hmin, hmax⟩ :=
    Interval.search_spec hden (by omega) hfloor 17 1 le_rfl rfl
  obtain ⟨hne, hle, hsame, hexpFrom, hexpTo⟩ := normalize_spec 17 _ hdigits
  refine ⟨hne, hle.trans ?_, ?_, ?_⟩
  · generalize i.search i.leading 1 17 = d at hbelow hmin
    have hcount : (i.floor d.exponent : ℚ) < (10 ^ 17 : Nat) := by
      have hstep := (Interval.floor_bounds hden d.exponent).1.trans_lt hto
      rw [← lt_div_iff₀ (by positivity), ← zpow_sub₀ (by norm_num)] at hstep
      refine hstep.trans_le ((hten (by omega : _ ≤ (17 : ℤ))).trans_eq ?_)
      rw [zpow_ofNat, Nat.cast_pow, Nat.cast_ofNat]
    exact hbelow.trans (Nat.cast_lt.mp hcount)
  · rw [hsame, ← hunit]
    refine hvalueUpper.trans_eq ?_
    rw [hupper]
    push_cast
    rfl
  · rw [abs_le] at hleading ⊢
    omega

end WalletEngine.Decimal
