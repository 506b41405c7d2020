import WalletEngine.Proofs.Decimal.Recovery
import WalletEngine.Proofs.Json.Floats

/-! # Numbers that are reread as they are

The reader rounds the significand and the power of ten before it rounds their quotient. Where the two
are exact it gives the number nearest to the decimal, and the shortest decimal of a number that is
nearest to a ratio of at most fifteen digits has so few digits that they are.
-/

namespace WalletEngine

open Binary64 Decimal Json Json.Reader

namespace Json

/-- A significand of at most 53 bits in front of its last zeros, divided by an exact power of ten,
gives the number that the quotient rounds to. -/
theorem scale?_of_roundsTo {a b n m : Nat} {e : Int} (hzero : a ≠ 0) (hbits : a < 2 ^ 53)
    (hfit : a * 2 ^ b < 2 ^ 64) (hn : n ≤ 22) (hpos : 0 < n) (hfits : Fits m e)
    (h : RoundsTo ((⟨a * 2 ^ b, -n⟩ : Decimal).toRat) m e) :
    scale? (a * 2 ^ b) (-n) = some (ofMagnitude false (magnitudeOf m e)) := by
  have hbelow : ((a * 2 ^ b : Nat) : ℚ) < overflow := by
    have hcast : ((a * 2 ^ b : Nat) : ℚ) < 2 ^ 64 := by exact_mod_cast hfit
    refine hcast.trans (lt_trans ?_ two_pow_lt_overflow)
    norm_num
  obtain ⟨hxFinite, hxSize, hxSign⟩ := ofNat_exact hzero hbits hbelow
  obtain ⟨hyFinite, hySize, hySign⟩ := powerOfTen_exact hn
  have hnum : ((a * 2 ^ b : Nat) : ℚ) ≠ 0 := by
    exact_mod_cast mul_ne_zero hzero (pow_ne_zero b two_ne_zero)
  have hquotient : (ofNat (a * 2 ^ b)).div (powerOfTen n) =
      ofMagnitude false (magnitudeOf m e) := by
    refine div_of_roundsTo hxFinite hyFinite (hxSize.symm ▸ hnum)
      (hySize.symm ▸ by positivity) hxSign hySign hfits ?_
    rwa [hxSize, hySize, div_eq_mul_inv, ← zpow_natCast, ← zpow_neg]
  rw [scale?, if_pos (by omega), show (-(n : Int)).natAbs = n by omega, shrink,
    if_pos (by rw [decide_eq_true (by omega : n ≤ 308), Bool.true_or]),
    min_eq_left (by omega), hquotient]

/-- A natural is read with a zero behind its point, as ten times itself divided by ten. -/
theorem reading_of_nonneg {d : Decimal} (hne : d.digits ≠ 0) (hnonneg : 0 ≤ d.exponent)
    (hbound : d.toRat < 5 / 3 * 10 ^ 15) :
    ∃ n : Nat, n ≠ 0 ∧ 3 * n < 5 * 10 ^ 15 ∧ d.toRat = n ∧
      d.reading = ⟨5 * n * 2 ^ 1, -(1 : Nat)⟩ := by
  obtain ⟨k, hk⟩ := Int.eq_ofNat_of_zero_le hnonneg
  have hvalue : d.toRat = (d.digits * 10 ^ k : Nat) := by
    rw [toRat, hk, zpow_natCast]
    push_cast
    rfl
  have hsize : 3 * (d.digits * 10 ^ k) < 5 * 10 ^ 15 := by
    have hcast : 3 * ((d.digits * 10 ^ k : Nat) : ℚ) < 5 * 10 ^ 15 := by
      rw [← hvalue]
      linarith
    exact_mod_cast hcast
  refine ⟨d.digits * 10 ^ k, by positivity, hsize, hvalue, ?_⟩
  -- It has at most sixteen digits with its zeros, so it is written positionally.
  have hfew : k ≤ 15 := by
    by_contra hmany
    have hten := Nat.pow_le_pow_right (by decide : 0 < 10) (by omega : 16 ≤ k)
    have hmul := Nat.le_mul_of_pos_left (10 ^ k) (Nat.pos_of_ne_zero hne)
    omega
  have hlength : (Nat.toDigits 10 d.digits).length ≤ 16 - k := by
    refine (Nat.length_toDigits_le_iff (by decide) (by omega)).mpr ?_
    refine Nat.lt_of_mul_lt_mul_right (a := 10 ^ k) ?_
    rw [← Nat.pow_add, Nat.sub_add_cancel (by omega)]
    omega
  have hpositional : (Notation.record.positional d.leading && decide (0 ≤ d.exponent)) = true := by
    rw [leading_eq]
    simp only [Notation.record, Bool.and_eq_true, decide_eq_true_eq]
    omega
  rw [Decimal.reading, if_pos hpositional, hk, Int.toNat_natCast]
  congr 1
  ring

/-- A decimal with few digits, on a grid that is not too fine, is read as the number that it rounds
to. -/
theorem scale?_reading_of_roundsTo {d : Decimal} {m : Nat} {e : Int} (hfits : Fits m e)
    (h : RoundsTo d.toRat m e) (hne : d.digits ≠ 0) (hdigits : d.digits < 3 * 10 ^ 15)
    (hleast : -22 ≤ d.exponent) (hnatural : 0 ≤ d.exponent → d.toRat < 5 / 3 * 10 ^ 15) :
    scale? d.reading.digits d.reading.exponent = some (ofMagnitude false (magnitudeOf m e)) := by
  rcases Int.lt_or_le d.exponent 0 with hneg | hnonneg
  · have hreading : d.reading = d := by
      rw [Decimal.reading, if_neg (by simpa using fun _ => hneg)]
    obtain ⟨n, hn⟩ : ∃ n : Nat, d.exponent = -n := ⟨d.exponent.natAbs, by omega⟩
    have hsame : (⟨d.digits * 2 ^ 0, -n⟩ : Decimal) = d := by
      rw [pow_zero, mul_one, ← hn]
    have hscale := scale?_of_roundsTo (b := 0) hne (hdigits.trans (by decide)) (by omega)
      (by omega : n ≤ 22) (by omega) hfits (hsame.symm ▸ h)
    rwa [hreading, hn, ← mul_one d.digits, ← pow_zero 2]
  · obtain ⟨n, hn, hsize, hvalue, hreading⟩ := reading_of_nonneg hne hnonneg (hnatural hnonneg)
    have hsame : (⟨5 * n * 2 ^ 1, -(1 : Nat)⟩ : Decimal).toRat = d.toRat := by
      rw [hvalue, toRat]
      push_cast
      ring
    rw [hreading]
    exact scale?_of_roundsTo (by positivity) (by omega) (by omega) (by omega) one_pos hfits
      (hsame.symm ▸ h)

end Json

namespace Binary64

/-- A number whose shortest decimal is read as a number of its magnitude is reread as it is. -/
theorem reread_of_scale? {x : Binary64} {m : Nat} {e : Int}
    (hview : x.view = .finite x.isNegative m e) (hfits : Fits m e)
    (hmagnitude : x.magnitude = magnitudeOf m e)
    (hscale : scale? (written m e).reading.digits (written m e).reading.exponent =
      some (ofMagnitude false (magnitudeOf m e))) : x.reread = x := by
  have hsmall : magnitudeOf m e < signBit := hfits.magnitudeOf_lt.trans (by decide)
  have hself := ofMagnitude_self x
  rw [hmagnitude] at hself
  rw [reread, hview]
  simp only [hscale]
  cases hsign : x.isNegative with
  | false => rw [if_neg Bool.false_ne_true, ← hsign, hself]
  | true => rw [if_pos rfl, negate_ofMagnitude hsmall, Bool.not_false, ← hsign, hself]

theorem reread_zero (negative : Bool) : (zero negative).reread = zero negative := by
  cases negative <;> decide +kernel

theorem pow_ten_quotient_lt {digits : Nat} (hdigits : digits < 10 ^ 15) (places : Nat) :
    (digits : ℚ) / (10 ^ places : Nat) < 10 ^ 15 := by
  have hcast : (digits : ℚ) < 10 ^ 15 := by exact_mod_cast hdigits
  have hone : (1 : ℚ) ≤ (10 ^ places : Nat) := by
    exact_mod_cast Nat.one_le_pow places 10 (by decide)
  exact (div_le_self (Nat.cast_nonneg _) hone).trans_lt hcast

theorem isFinite_ofRatio_pow_ten {digits places : Nat} (hdigits : digits < 10 ^ 15)
    (negative : Bool) : (ofRatio negative digits (10 ^ places)).isFinite = true := by
  have hbound := pow_ten_quotient_lt hdigits places
  exact (ofRatio_size_le (by positivity)
    (hbound.trans ((by norm_num : (10 : ℚ) ^ 15 < 2 ^ 65).trans two_pow_lt_overflow)) negative).1

/-- A number that is nearest to a decimal of at most fifteen digits, at most twenty-one of them behind
the point, is reread as it is. -/
theorem reread_ofRatio_pow_ten {digits places : Nat} (hdigits : digits < 10 ^ 15)
    (hplaces : places ≤ 21) (negative : Bool) :
    (ofRatio negative digits (10 ^ places)).reread = ofRatio negative digits (10 ^ places) := by
  rcases Nat.eq_zero_or_pos digits with rfl | hpos
  · rw [ofRatio, if_pos (by simp), reread_zero]
  have hden : 10 ^ places ≠ 0 := by positivity
  have hvalue : (⟨digits, -places⟩ : Decimal).toRat = (digits : ℚ) / (10 ^ places : Nat) := by
    rw [toRat, zpow_neg, zpow_natCast, ← div_eq_mul_inv]
    push_cast
    rfl
  have hbound := pow_ten_quotient_lt hdigits places
  have hfinite : (ofRatio negative digits (10 ^ places)).isFinite = true :=
    isFinite_ofRatio_pow_ten hdigits negative
  generalize hx : ofRatio negative digits (10 ^ places) = x at hfinite ⊢
  obtain ⟨m, e, hview, hfits, hmagnitude⟩ := view_of_isFinite hfinite
  have hrounds := roundsTo_of_ofRatio hpos.ne' hden hfits (hx.symm ▸ hmagnitude)
  have hm : m ≠ 0 := by
    refine hrounds.mantissa_ne_zero hfits ?_
    calc (2 : ℚ) ^ (-1074 : ℤ) ≤ 2 ^ (-70 : ℤ) := zpow_le_zpow_right₀ one_le_two (by decide)
      _ ≤ 1 / 10 ^ 21 := by norm_num
      _ ≤ digits / (10 ^ places : Nat) := by
          push_cast
          gcongr
          · exact_mod_cast hpos
          · norm_num
  rw [← hvalue] at hrounds hbound
  obtain ⟨hnearest, hne, hfew, hgrid⟩ := shortest_of_roundsTo hfits hm hrounds hpos.ne' hdigits
  have hwritten : written m e = shortest m e := if_neg hm
  refine reread_of_scale? hview hfits hmagnitude ?_
  rw [hwritten]
  refine scale?_reading_of_roundsTo hfits hnearest hne hfew ?_
    (toRat_shortest_lt hfits hm hrounds hbound hnearest hne)
  change -(places : ℤ) - 1 ≤ _ at hgrid
  omega

end Binary64
end WalletEngine
