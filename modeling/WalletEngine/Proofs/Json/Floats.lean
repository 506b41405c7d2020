import WalletEngine.Proofs.Decimal.Shortest
import WalletEngine.Proofs.Json.Numerals

/-! # Finite numbers in a text

The float reader rounds up to three times, so it need not return the number that was written. It
always returns a finite one: only the two greatest numbers are so close to the overflow bound that
the error bounds do not tell, and for these the reader is run.
-/

namespace WalletEngine
namespace Json

namespace Reader
open Binary64 Steps

/-! ## Scaling -/

theorem le_size_powerOfTen {n : Nat} (hpos : 0 < n) (hn : n ≤ 308) : 9 ≤ (powerOfTen n).size := by
  have herror := (abs_le.mp (powerOfTen_spec hn).2).1
  have hten : (10 : ℚ) ≤ 10 ^ n := le_self_pow₀ (by norm_num) hpos.ne'
  generalize (10 : ℚ) ^ n = power at herror hten
  norm_num at herror
  linarith

theorem two_pow_lt_overflow : (2 : ℚ) ^ 65 < overflow := by
  have hnat : 2 ^ 65 ≤ 10 ^ 308 := by decide +kernel
  have hcast := Nat.cast_le (α := ℚ).mpr hnat
  rw [Nat.cast_pow, Nat.cast_pow] at hcast
  exact lt_of_le_of_lt hcast pow_ten_lt_overflow

/-- Dividing by powers of ten keeps a number finite. -/
theorem shrink_spec (fuel : Nat) : ∀ {x : Binary64} {exponent : Nat}, x.isFinite = true →
    x.size ≤ 2 ^ 65 → 0 < exponent → (shrink x exponent fuel).isFinite = true := by
  have hdivide : ∀ {x : Binary64} {n : Nat}, x.isFinite = true → x.size ≤ 2 ^ 65 → 0 < n →
      n ≤ 308 → (x.div (powerOfTen n)).isFinite = true ∧
        (x.div (powerOfTen n)).size ≤ 2 ^ 65 := by
    intro x n hx hsize hpos hn
    have hnine := le_size_powerOfTen hpos hn
    have hquot : x.size / (powerOfTen n).size ≤ 2 ^ 65 / 9 := by
      gcongr
    have hspec := div_spec hx (powerOfTen_spec hn).1 (by linarith)
      (hquot.trans_lt ((div_le_self (by positivity) (by norm_num)).trans_lt two_pow_lt_overflow))
    refine ⟨hspec.1, hspec.2.trans ?_⟩
    linarith
  induction fuel with
  | zero => exact fun hx _ _ => hx
  | succ fuel ih =>
      intro x exponent hx hsize hpos
      rw [shrink]
      split
      next => exact (hdivide hx hsize (by omega) (by omega)).1
      next hlarge =>
        have hmore : 308 < exponent := by
          simp only [Bool.or_eq_true, decide_eq_true_eq, not_or] at hlarge
          omega
        obtain ⟨hfinite, hbound⟩ := hdivide hx hsize (by decide : 0 < 308) le_rfl
        exact ih hfinite hbound (by omega)

/-- A significand of 64 bits divided by a power of ten. -/
theorem scale?_of_neg {significand : Nat} {exponent : Int} (hfit : significand < UInt64.size)
    (hexp : exponent < 0) : ∃ x, scale? significand exponent = some x ∧ x.isFinite = true := by
  have hbound : (significand : ℚ) + 1 ≤ 2 ^ 64 := by
    have := Nat.succ_le_of_lt hfit
    exact_mod_cast this
  obtain ⟨hfinite, hdouble⟩ : (ofNat significand).isFinite = true ∧
      (ofNat significand).size ≤ 2 * significand + 1 := by
    have hfits : (significand : ℚ) / (1 : ℕ) < overflow := by
      rw [Nat.cast_one, div_one]
      linarith [two_pow_lt_overflow]
    have hspec := ofRatio_size_le one_ne_zero hfits false
    rwa [Nat.cast_one, div_one] at hspec
  have hsize : (ofNat significand).size ≤ 2 ^ 65 := hdouble.trans (by linarith)
  exact ⟨_, by rw [scale?, if_pos hexp], shrink_spec _ hfinite hsize (by omega)⟩

theorem headroom_lt : ((2 : ℚ) ^ 54 - 5) * 2 ^ 970 * (1 + 1 / 2 ^ 53) ^ 2 < overflow := by
  have hpow : (0 : ℚ) < 2 ^ 970 := by positivity
  rw [overflow, mul_right_comm]
  gcongr
  norm_num

theorem overflow_lt_pow_ten : overflow < 10 ^ 309 := by
  have hnat : (2 ^ 54 - 1) * 2 ^ 970 < 10 ^ 309 := by decide +kernel
  have hcast := Nat.cast_lt (α := ℚ).mpr hnat
  rwa [Nat.cast_pow, Nat.cast_mul, Nat.cast_pow, Nat.cast_sub (by decide +kernel), Nat.cast_pow,
    Nat.cast_one] at hcast

/-- A significand multiplied by a power of ten, short of the overflow bound by what the two
roundings before the product may add. -/
theorem scale?_of_nonneg {significand : Nat} {exponent : Int} (hzero : significand ≠ 0)
    (hexp : 0 ≤ exponent)
    (hfit : (significand : ℚ) * 10 ^ exponent ≤ (2 ^ 54 - 5) * 2 ^ 970) :
    ∃ x, scale? significand exponent = some x ∧ x.isFinite = true := by
  obtain ⟨n, rfl⟩ := Int.eq_ofNat_of_zero_le hexp
  have hroom : ((2 : ℚ) ^ 54 - 5) * 2 ^ 970 < overflow := by
    rw [overflow]
    gcongr
    norm_num
  rw [zpow_natCast] at hfit
  have hone : (1 : ℚ) ≤ significand := by exact_mod_cast Nat.one_le_iff_ne_zero.mpr hzero
  have hpow : (1 : ℚ) ≤ 10 ^ n := one_le_pow₀ (by norm_num)
  have hrange : n ≤ 308 := by
    by_contra hlarge
    have hfar : (10 : ℚ) ^ 309 ≤ 10 ^ n := pow_le_pow_right₀ (by norm_num) (by omega)
    have hbelow := (le_mul_of_one_le_left (zero_le_one.trans hpow) hone).trans hfit
    exact absurd ((hfar.trans hbelow).trans_lt (hroom.trans overflow_lt_pow_ten)) (lt_irrefl _)
  have hsignificand := ofNat_spec hzero
    ((le_mul_of_one_le_right (Nat.cast_nonneg _) hpow).trans_lt (hfit.trans_lt hroom))
  have hpower := powerOfTen_spec hrange
  have hproduct : (ofNat significand).size * (powerOfTen n).size < overflow := by
    have hleft : (ofNat significand).size ≤ significand * (1 + 1 / 2 ^ 53) := by
      have := (abs_le.mp hsignificand.2).2
      linarith
    have hright : (powerOfTen n).size ≤ 10 ^ n * (1 + 1 / 2 ^ 53) := by
      have := (abs_le.mp hpower.2).2
      linarith
    calc _ ≤ (significand * (1 + 1 / 2 ^ 53)) * (10 ^ n * (1 + 1 / 2 ^ 53) : ℚ) :=
          mul_le_mul hleft hright (size_nonneg _) (by positivity)
      _ = significand * 10 ^ n * (1 + 1 / 2 ^ 53) ^ 2 := by ring
      _ ≤ (2 ^ 54 - 5) * 2 ^ 970 * (1 + 1 / 2 ^ 53) ^ 2 := by gcongr
      _ < overflow := headroom_lt
  have hfinite := mul_isFinite hsignificand.1 hpower.1 hproduct
  refine ⟨_, ?_, hfinite⟩
  rw [scale?, if_neg (by omega), if_neg hzero, if_neg (by omega)]
  simp only [Int.toNat_natCast, hfinite, if_true]

/-! ## Texts of numbers -/

theorem number_starts {negative : Bool} {text : List Char} {n : Number} {rest : List Symbol}
    (h : number negative (text.map .char) = .ok (n, rest)) :
    ∃ c cs, text = c :: cs ∧ c.isDigit = true := by
  cases text with
  | nil => cases h
  | cons c cs =>
      refine ⟨c, cs, rfl, ?_⟩
      by_contra hdigit
      have hsymbol : Symbol.isDigit (.char c) = false := by simpa [Symbol.isDigit] using hdigit
      rw [number, List.map_cons, bind_of_ok (peek?_cons _ _)] at h
      simp only [hsymbol, Bool.not_false, if_true] at h
      cases h

theorem scalar?_of_isDigit {c : Char} (hc : c.isDigit = true) :
    scalar? (.char c) = some (Json.number <$> signedNumber) := by
  have hsymbol : Symbol.isDigit (.char c) = true := hc
  have hother : ∀ {d : Char}, d.isDigit = false → Symbol.char c ≠ .char d := by
    rintro d hd ⟨⟩
    exact Bool.false_ne_true (hd.symm.trans hc)
  unfold scalar?
  split
  next heq => exact absurd heq (hother rfl)
  next heq => exact absurd heq (hother rfl)
  next heq => exact absurd heq (hother rfl)
  next heq => exact absurd heq (hother rfl)
  next heq => exact absurd heq (hother rfl)
  next => rw [if_pos hsymbol]

theorem isSpace_of_isDigit {c : Char} (hc : c.isDigit = true) : isSpace (.char c) = false := by
  simp only [isSpace, Bool.or_eq_false_iff, decide_eq_false_iff_not]
  refine ⟨⟨⟨?_, ?_⟩, ?_⟩, ?_⟩ <;> (rintro rfl; cases hc)

/-- The sign of a number in a text. -/
def signChars (negative : Bool) : List Char := if negative then ['-'] else []

/-- A text that is read as a number after a sign spells that number with the sign. -/
theorem spells_number {negative : Bool} {text : List Char} {n : Number}
    (h : ∀ rest, Stops rest → number negative (text.map .char ++ rest) = .ok (n, rest)) :
    Spells (signChars negative ++ text) (.number n) := by
  have hnil := h [] stops_nil
  rw [List.append_nil] at hnil
  obtain ⟨c, cs, rfl, hc⟩ := number_starts hnil
  cases negative with
  | false =>
      refine ⟨c, cs, _, rfl, isSpace_of_isDigit hc, scalar?_of_isDigit hc, ?_⟩
      intro rest hrest
      have hminus : some (Symbol.char c) ≠ some (.char '-') := by
        rintro ⟨⟩
        cases hc
      have hsigned : signedNumber ((signChars false ++ c :: cs).map .char ++ rest) =
          number false ((c :: cs).map .char ++ rest) := by
        change signedNumber (.char c :: (cs.map .char ++ rest)) = _
        rw [signedNumber, bind_of_ok (peek?_cons _ _)]
        refine congrFun ?_ _
        split
        next heq => exact absurd heq hminus
        next => rfl
      rw [map_apply, hsigned, h rest hrest]
  | true =>
      refine ⟨'-', c :: cs, _, rfl, by decide, rfl, ?_⟩
      intro rest hrest
      have hsigned : signedNumber ((signChars true ++ c :: cs).map .char ++ rest) =
          number true ((c :: cs).map .char ++ rest) := rfl
      rw [map_apply, hsigned, h rest hrest]

/-- A natural number of 64 bits is read back. -/
theorem spells_natural {n : Nat} (hn : n < UInt64.size) :
    Spells (numberChars (.integer n)) (.number (.integer n)) := by
  have htext : numberChars (.integer n) = signChars false ++ Nat.toDigits 10 n :=
    Nat.toList_repr
  rw [htext]
  exact spells_number fun rest hrest => number_toDigits false hn hrest

end Reader

/-! ## Finite numbers -/

open Binary64 Decimal Reader

theorem isFinite_negate {x : Binary64} (h : x.isFinite = true) : x.negate.isFinite = true :=
  isFinite_ofMagnitude (of_decide_eq_true h)

theorem scaled_of_some {significand : Nat} {exponent : Int} {x : Binary64}
    (h : scale? significand exponent = some x) (negative : Bool) (rest : List Symbol) :
    scaled negative significand exponent rest =
      .ok (.float (if negative then x.negate else x), rest) := by
  rw [scaled, h]
  rfl

/-- The two greatest mantissas, for which the error bounds are too coarse. -/
theorem scale?_shortest_last (i : Fin 2) :
    ((scale? (shortest (2 ^ 53 - 1 - i) 971).digits
      (shortest (2 ^ 53 - 1 - i) 971).exponent).any Binary64.isFinite) = true := by
  revert i
  decide +kernel

/-- The digits of the shortest decimal of a number give a finite number. -/
theorem scale?_shortest {m : Nat} {e : Int} (hm : m ≠ 0) (hfit : m < 2 ^ 53) (hlow : -1074 ≤ e)
    (hhigh : e ≤ 971) :
    ∃ y, scale? (shortest m e).digits (shortest m e).exponent = some y ∧ y.isFinite = true := by
  obtain ⟨hne, hdigits, hvalue, -⟩ := shortest_spec hm hfit hlow hhigh
  -- A division cannot leave the range; a product can, for the greatest numbers.
  rcases lt_or_ge (shortest m e).exponent 0 with hneg | hnonneg
  · exact scale?_of_neg (hdigits.trans_lt (by decide)) hneg
  have hdouble : (2 : ℚ) ^ 970 = 2 * 2 ^ 969 := pow_succ' 2 969
  have hpow : (0 : ℚ) < 2 ^ 969 := by positivity
  rcases hhigh.lt_or_eq with hbelow | rfl
  · refine scale?_of_nonneg hne hnonneg (hvalue.trans ?_)
    have hmantissa : (m : ℚ) + 1 ≤ 2 ^ 53 := by exact_mod_cast Nat.succ_le_of_lt hfit
    have hexp : (2 : ℚ) ^ (e - 2) ≤ 2 ^ 968 := by
      rw [← zpow_natCast]
      exact zpow_le_zpow_right₀ one_le_two (by omega)
    have hhalf : (2 : ℚ) ^ 969 = 2 * 2 ^ 968 := pow_succ' 2 968
    calc (4 * m + 2 : ℚ) * 2 ^ (e - 2) ≤ 2 ^ 55 * 2 ^ 968 := by
          gcongr
          linarith
      _ = 2 ^ 54 * 2 ^ 969 := by
          rw [hhalf, ← mul_assoc]
          norm_num
      _ ≤ (2 ^ 54 - 5) * 2 ^ 970 := by
          rw [hdouble, ← mul_assoc]
          gcongr
          norm_num
  rcases Nat.lt_or_ge m (2 ^ 53 - 2) with hbelow | hlast
  · refine scale?_of_nonneg hne hnonneg (hvalue.trans ?_)
    have hmantissa : (m : ℚ) + 3 ≤ 2 ^ 53 := by
      have : m + 3 ≤ 2 ^ 53 := by omega
      exact_mod_cast this
    rw [show (971 : ℤ) - 2 = (969 : ℕ) from rfl, zpow_natCast, hdouble, ← mul_assoc]
    gcongr
    linarith
  -- The bound on the error would allow the last two to be rounded up, so they are computed.
  · have hscale := scale?_shortest_last ⟨2 ^ 53 - 1 - m, by omega⟩
    simp only [show 2 ^ 53 - 1 - (2 ^ 53 - 1 - m) = m by omega] at hscale
    exact (Option.any_eq_true _ _).mp hscale

/-- A decimal below 1e16 with a digit for each power of ten fits 64 bits. -/
theorem positional_fits {d : Decimal} (hexp : 0 ≤ d.exponent) (hleading : d.leading < 16) :
    10 ^ (d.exponent.toNat + 1) * d.digits < UInt64.size := by
  rw [leading_eq] at hleading
  have hbelow : d.digits < 10 ^ (Nat.toDigits 10 d.digits).length :=
    (Nat.length_toDigits_le_iff (by decide) Nat.length_toDigits_pos).mp le_rfl
  calc 10 ^ (d.exponent.toNat + 1) * d.digits
      ≤ 10 ^ (d.exponent.toNat + 1) * 10 ^ (Nat.toDigits 10 d.digits).length :=
        Nat.mul_le_mul_left _ hbelow.le
    _ = 10 ^ (d.exponent.toNat + 1 + (Nat.toDigits 10 d.digits).length) :=
        (Nat.pow_add _ _ _).symm
    _ ≤ 10 ^ 17 := Nat.pow_le_pow_right (by decide) (by omega)
    _ < UInt64.size := by decide

end Json

/-- The decimal that a mantissa and an exponent are written as. -/
def Decimal.written (m : Nat) (e : Int) : Decimal := if m = 0 then ⟨0, 0⟩ else shortest m e

/-- The decimal that the record notation of a decimal is read as. A text without a fraction has a zero
behind its point, which is read as one more digit. -/
def Decimal.reading (d : Decimal) : Decimal :=
  if Notation.record.positional d.leading && 0 ≤ d.exponent then
    ⟨10 ^ (d.exponent.toNat + 1) * d.digits, -1⟩
  else d

/-- The number that the text of a finite number in a record is read as. -/
def Binary64.reread (x : Binary64) : Binary64 :=
  match x.view with
  | .finite negative m e =>
    let d := (Decimal.written m e).reading
    match Json.Reader.scale? d.digits d.exponent with
    | some y => if negative then y.negate else y
    | none => x
  | _ => x

namespace Json
open Binary64 Decimal Reader

/-- What is read of a decimal can be scaled if the decimal can. -/
theorem scale?_reading {d : Decimal}
    (h : ∃ y, scale? d.digits d.exponent = some y ∧ y.isFinite = true) :
    ∃ y, scale? d.reading.digits d.reading.exponent = some y ∧ y.isFinite = true := by
  unfold Decimal.reading
  split
  next hpositional =>
    simp only [Notation.record, Bool.and_eq_true, decide_eq_true_eq] at hpositional
    exact scale?_of_neg (positional_fits hpositional.2 hpositional.1.2) (by decide : (-1 : Int) < 0)
  next => exact h

/-- The record notation of a decimal is read digit by digit. -/
theorem number_recordText {d : Decimal} (hdigits : d.digits ≤ 10 ^ 17)
    (hexponent : |d.exponent| ≤ 400) (hzero : d.digits ≠ 0 ∨ d = ⟨0, 0⟩) (negative : Bool)
    {rest : List Symbol} (hrest : Stops rest) :
    Reader.number negative ((Notation.record.text d).toList.map .char ++ rest) =
      scaled negative d.reading.digits d.reading.exponent rest := by
  have hdigitsFit : d.digits < UInt64.size := hdigits.trans_lt (by decide)
  unfold Decimal.reading
  by_cases hpositional : Notation.record.positional d.leading = true
  · rw [show Notation.record.text d = positionalText true d from if_pos hpositional, hpositional]
    simp only [Notation.record, Bool.and_eq_true, decide_eq_true_eq] at hpositional
    -- With no digit behind the point, the reader sees the zero there as one digit more.
    rcases Int.lt_or_le d.exponent 0 with hneg | hnonneg
    · rw [if_neg (by simpa using hneg)]
      exact number_positional_of_neg hneg hdigitsFit _ hrest
    · rw [if_pos (by simpa using hnonneg)]
      refine number_positional_of_nonneg hnonneg (hzero.imp_right ?_)
        (positional_fits hnonneg hpositional.2) _ hrest
      rintro rfl
      rfl
  · rw [show Notation.record.text d = exponentText true d from if_neg hpositional,
      if_neg (by simp [hpositional])]
    have hne : d.digits ≠ 0 := by
      rcases hzero with hne | rfl
      · exact hne
      · exact absurd rfl hpositional
    have hlead := leading_eq d
    have hlength : (Nat.toDigits 10 d.digits).length ≤ 18 :=
      (Nat.length_toDigits_le_iff (by decide) (by decide)).mpr (hdigits.trans_lt (by decide))
    rw [abs_le] at hexponent
    have hleadingFit : d.leading.natAbs ≤ exponentLimit := by
      rw [exponentLimit]
      omega
    have hexponentFit : d.exponent.natAbs ≤ exponentLimit := by
      rw [exponentLimit]
      omega
    exact number_exponentText hne hdigitsFit hleadingFit hexponentFit _ hrest

/-- The decimal of a finite number can be scaled, and is read as it was written. -/
theorem number_written {m : Nat} {e : Int} (hfits : Fits m e) (negative : Bool) :
    (∃ y, scale? (written m e).digits (written m e).exponent = some y ∧
      Binary64.isFinite y = true) ∧
    ∀ rest, Stops rest →
      Reader.number negative ((Notation.record.text (written m e)).toList.map .char ++ rest) =
        scaled negative (written m e).reading.digits (written m e).reading.exponent rest := by
  rw [written]
  by_cases hm : m = 0
  · rw [if_pos hm]
    exact ⟨⟨zero false, rfl, zero_isFinite false⟩,
      fun rest => number_recordText (by decide) (by decide) (Or.inr rfl) _⟩
  · rw [if_neg hm]
    obtain ⟨hne, hle, -, hexp⟩ := shortest_spec hm hfits.mantissa hfits.least hfits.greatest
    exact ⟨scale?_shortest hm hfits.mantissa hfits.least hfits.greatest,
      fun rest => number_recordText hle hexp (Or.inl hne) _⟩

/-- The text of a finite number is read as a finite number. -/
theorem spells_reread {x : Binary64} (hx : x.isFinite = true) :
    Binary64.isFinite x.reread = true ∧
      Spells (numberChars (.float x)) (.number (.float x.reread)) := by
  obtain ⟨m, e, hview, hfits, -⟩ := view_of_isFinite hx
  obtain ⟨hscale, hread⟩ := number_written hfits x.isNegative
  obtain ⟨y, hy, hfinite⟩ := scale?_reading hscale
  have hreread : x.reread = if x.isNegative then y.negate else y := by
    rw [Binary64.reread, hview]
    simp only [hy]
  have htext : numberChars (.float x) =
      signChars x.isNegative ++ (Notation.record.text (written m e)).toList := by
    rw [numberChars, if_pos hx, Binary64.text, hview, written]
    simp only [String.toList_append, signChars]
    cases x.isNegative <;> rfl
  refine ⟨?_, ?_⟩
  · rw [hreread]
    split
    · exact isFinite_negate hfinite
    · exact hfinite
  · rw [htext, hreread]
    refine spells_number fun rest hrest => ?_
    rw [hread rest hrest, scaled_of_some hy]

end Json
end WalletEngine
