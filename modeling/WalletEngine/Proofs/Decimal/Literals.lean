import WalletEngine.Decimal.Literal
import WalletEngine.Decimal.Notation
import WalletEngine.Proofs.Decimal.Faithful
import WalletEngine.Proofs.Json.Numerals

/-! # Numbers are read back from their texts

A reader that rounds to the nearest number reads every finite number back from its text, in either
notation and with its sign. So two finite numbers have two texts, which consist of digits, signs,
points and the letter of the exponent.
-/

namespace WalletEngine

namespace Decimal

open Binary64
open Json.Reader (isWhole_toDigits ofDigitChars_toDigits_append isDigit_replicate_zero paddedDigits
  lt_length_paddedDigits ofDigitChars_paddedDigits isDigit_paddedDigits leading_eq powerSign powerChars
  pointed toList_exponentText)

namespace Literal

/-! ## Reading digits -/

/-- A fraction behind its point, or nothing if there is none. -/
def fractionChars (fraction : List Char) : List Char :=
  if fraction.isEmpty then [] else '.' :: fraction

theorem takeWhile_of_digits {ds rest : List Char} (hds : ∀ c ∈ ds, c.isDigit = true)
    (hrest : ∀ c ∈ rest.head?, c.isDigit = false) :
    (ds ++ rest).takeWhile Char.isDigit = ds ∧ (ds ++ rest).dropWhile Char.isDigit = rest := by
  rw [List.takeWhile_append_of_pos hds, List.dropWhile_append_of_pos hds]
  cases rest with
  | nil => exact ⟨List.append_nil ds, rfl⟩
  | cons c rest =>
      have hc : ¬ c.isDigit = true := by rw [hrest c rfl]; decide
      rw [List.takeWhile_cons_of_neg hc, List.dropWhile_cons_of_neg hc, List.append_nil]
      exact ⟨rfl, rfl⟩

/-- Digits with or without a fraction, and an exponent behind them. -/
theorem unsigned?_apply (negative : Bool) {whole fraction tail : List Char} {exponent : Int}
    (hwhole : ∀ c ∈ whole, c.isDigit = true) (hne : whole ≠ [])
    (hfraction : ∀ c ∈ fraction, c.isDigit = true)
    (htail : ∀ c ∈ tail.head?, c.isDigit = false ∧ c ≠ '.')
    (hexponent : exponent? tail = some exponent) :
    unsigned? negative (whole ++ (fractionChars fraction ++ tail)) =
      some (round negative (Nat.ofDigitChars 10 (whole ++ fraction) 0)
        (exponent - fraction.length)) := by
  have hempty : whole.isEmpty = false := by simpa using hne
  have hend : ∀ c ∈ tail.head?, c.isDigit = false := fun c hc => (htail c hc).1
  cases hshape : fraction with
  | nil =>
      obtain ⟨htake, hdrop⟩ := takeWhile_of_digits hwhole hend
      have hnone : ∀ more, tail = '.' :: more → False := by
        rintro more rfl
        exact (htail '.' rfl).2 rfl
      simp only [unsigned?, fractionChars, List.isEmpty_nil, if_true, List.nil_append, htake, hdrop,
        hempty, Bool.false_and, Bool.not_false, guard_true, pure_bind, hexponent,
        List.append_nil, List.length_nil]
      rfl
  | cons digit others =>
      rw [hshape] at hfraction
      have hpoint : ∀ c ∈ ('.' :: (digit :: others ++ tail)).head?, c.isDigit = false := by
        rintro c ⟨⟩
        rfl
      obtain ⟨htake, hdrop⟩ := takeWhile_of_digits hwhole hpoint
      obtain ⟨htakeMore, hdropMore⟩ := takeWhile_of_digits hfraction hend
      have hchars : fractionChars (digit :: others) ++ tail = '.' :: (digit :: others ++ tail) := rfl
      rw [hchars]
      simp only [unsigned?, htake, hdrop, htakeMore, hdropMore, hempty, Bool.false_and,
        Bool.not_false, guard_true, pure_bind, hexponent]
      rfl

/-- A text of a decimal: read with either sign, it gives digits times a power of ten, unrounded. -/
structure Spells (cs : List Char) (d : Decimal) : Prop where
  reads : ∃ digits : Nat, ∃ exponent : Int, (digits : ℚ) * 10 ^ exponent = d.toRat ∧
    ∀ negative, unsigned? negative cs = some (round negative digits exponent)
  starts : ∃ c rest, cs = c :: rest ∧ c.isDigit = true
  chars : ∀ c ∈ cs, c.isDigit = true ∨ c ∈ ['+', '-', '.', 'e']

theorem mem_fractionChars {fraction : List Char} {c : Char} (h : c ∈ fractionChars fraction) :
    c = '.' ∨ c ∈ fraction := by
  rw [fractionChars] at h
  split at h
  next => cases h
  next => exact List.mem_cons.mp h

theorem Spells.of_parts {whole fraction tail : List Char} {exponent : Int} {d : Decimal}
    (hwhole : ∀ c ∈ whole, c.isDigit = true) (hne : whole ≠ [])
    (hfraction : ∀ c ∈ fraction, c.isDigit = true)
    (htail : ∀ c ∈ tail.head?, c.isDigit = false ∧ c ≠ '.')
    (hexponent : exponent? tail = some exponent)
    (hchars : ∀ c ∈ tail, c.isDigit = true ∨ c ∈ ['+', '-', '.', 'e'])
    (hvalue : (Nat.ofDigitChars 10 (whole ++ fraction) 0 : ℚ) * 10 ^ (exponent - fraction.length) =
      d.toRat) : Spells (whole ++ (fractionChars fraction ++ tail)) d where
  reads := ⟨_, _, hvalue, fun negative =>
    unsigned?_apply negative hwhole hne hfraction htail hexponent⟩
  starts := by
    obtain ⟨c, rest, rfl⟩ := List.exists_cons_of_ne_nil hne
    exact ⟨c, _, rfl, hwhole c List.mem_cons_self⟩
  chars := by
    intro c hc
    rcases List.mem_append.mp hc with hc | hc
    · exact .inl (hwhole c hc)
    rcases List.mem_append.mp hc with hc | hc
    · rcases mem_fractionChars hc with rfl | hc
      · exact .inr (by decide)
      · exact .inl (hfraction c hc)
    · exact hchars c hc

/-! ## The notations -/

/-- A sign is told apart from the digits behind it, and none is seen where there is none. -/
theorem sign_powerSign (plus : Bool) (d : Decimal) {ds : List Char}
    (hds : ∀ c ∈ ds, c.isDigit = true) :
    sign (powerSign plus d ++ ds) = (decide (d.leading < 0), ds) := by
  have hnone : sign ds = (false, ds) := by
    rw [sign.eq_3]
    · rintro rest rfl
      exact absurd (hds '-' List.mem_cons_self) (by decide)
    · rintro rest rfl
      exact absurd (hds '+' List.mem_cons_self) (by decide)
  rw [powerSign]
  by_cases hneg : d.leading < 0
  · rw [if_pos hneg, decide_eq_true hneg]
    rfl
  · rw [if_neg hneg, decide_eq_false hneg]
    cases plus with
    | true => rfl
    | false => exact hnone

theorem exponent?_powerChars (plus : Bool) (d : Decimal) :
    exponent? (powerChars plus d) = some d.leading := by
  have hdigits : ∀ c ∈ Nat.toDigits 10 d.leading.natAbs, c.isDigit = true :=
    (isWhole_toDigits _).digits
  have hempty : (Nat.toDigits 10 d.leading.natAbs).isEmpty = false :=
    List.isEmpty_eq_false_iff.mpr (isWhole_toDigits _).nonempty
  have hall : (Nat.toDigits 10 d.leading.natAbs).all Char.isDigit = true :=
    List.all_eq_true.mpr hdigits
  have hvalue : natOfDigits (Nat.toDigits 10 d.leading.natAbs) = d.leading.natAbs :=
    Nat.ofDigitChars_ten_toDigits
  simp only [powerChars, exponent?, sign_powerSign plus d hdigits, hempty, hall, hvalue, decide_true,
    Bool.true_or, Bool.not_false, Bool.and_self, if_true, Option.some.injEq]
  by_cases hneg : d.leading < 0
  · rw [if_pos (decide_eq_true hneg)]
    omega
  · rw [if_neg (by simpa using hneg)]
    omega

theorem mem_signs_of_mem_powerSign {plus : Bool} {d : Decimal} {c : Char}
    (h : c ∈ powerSign plus d) : c ∈ ['+', '-', '.', 'e'] := by
  rw [powerSign] at h
  split at h
  next =>
    rw [List.mem_singleton.mp h]
    decide
  next =>
    split at h
    next =>
      rw [List.mem_singleton.mp h]
      decide
    next => cases h

theorem pointed_eq {first : Char} (others : List Char) :
    pointed (first :: others) = [first] ++ fractionChars others := by
  cases others <;> rfl

/-- The notation with an exponent. -/
theorem spells_exponentText (plus : Bool) (d : Decimal) : Spells (exponentText plus d).toList d := by
  have hwhole := isWhole_toDigits d.digits
  have hlength := leading_eq d
  have hvalue : Nat.ofDigitChars 10 (Nat.toDigits 10 d.digits) 0 = d.digits :=
    Nat.ofDigitChars_ten_toDigits
  rw [toList_exponentText]
  obtain ⟨first, others, hshape⟩ := List.exists_cons_of_ne_nil hwhole.nonempty
  rw [hshape] at hwhole hlength hvalue ⊢
  rw [List.length_cons] at hlength
  rw [pointed_eq, List.append_assoc]
  refine .of_parts ?_ (List.cons_ne_nil _ _) ?_ ?_ (exponent?_powerChars plus d) ?_ ?_
  · intro c hc
    rw [List.mem_singleton.mp hc]
    exact hwhole.digits first List.mem_cons_self
  · exact fun c hc => hwhole.digits c (List.mem_cons_of_mem _ hc)
  · rintro c ⟨⟩
    decide
  · intro c hc
    rw [powerChars] at hc
    rcases List.mem_cons.mp hc with rfl | hc
    · exact .inr (by decide)
    rcases List.mem_append.mp hc with hc | hc
    · exact .inr (mem_signs_of_mem_powerSign hc)
    · exact .inl ((isWhole_toDigits _).digits c hc)
  · rw [List.singleton_append, hvalue, toRat]
    congr 2
    omega

theorem spells_positional_of_neg {d : Decimal} (hneg : d.exponent < 0) (pointed : Bool) :
    Spells (positionalText pointed d).toList d := by
  obtain ⟨places, hplaces⟩ : ∃ places : Nat, d.exponent = -places := ⟨d.exponent.natAbs, by omega⟩
  have hlength := lt_length_paddedDigits d.digits places
  have hvalue := ofDigitChars_paddedDigits d.digits places
  have hdigits : ∀ c ∈ paddedDigits d.digits places, c.isDigit = true :=
    fun _ => isDigit_paddedDigits
  have htext : (positionalText pointed d).toList =
      (paddedDigits d.digits places).take ((paddedDigits d.digits places).length - places) ++
        (fractionChars ((paddedDigits d.digits places).drop
          ((paddedDigits d.digits places).length - places)) ++ []) := by
    have hdrop : ((paddedDigits d.digits places).drop
        ((paddedDigits d.digits places).length - places)).isEmpty = false := by
      rw [List.isEmpty_eq_false_iff, ← List.length_pos_iff, List.length_drop]
      omega
    rw [fractionChars, hdrop, positionalText, if_neg (by omega)]
    simp only [show (-d.exponent).toNat = places by omega, Nat.toList_repr, toString,
      String.toList_ofList, paddedDigits, Bool.false_eq_true, if_false, List.append_nil]
  rw [htext]
  generalize paddedDigits d.digits places = padded at hlength hvalue hdigits ⊢
  refine .of_parts (fun c hc => hdigits c (List.mem_of_mem_take hc)) ?_
    (fun c hc => hdigits c (List.mem_of_mem_drop hc)) (by rintro c ⟨⟩) rfl (by rintro c ⟨⟩) ?_
  · rw [← List.length_pos_iff, List.length_take]
    omega
  · rw [List.take_append_drop, hvalue, toRat, List.length_drop]
    congr 2
    omega

/-- Without a fraction of its own, a decimal may be given a zero behind the point. -/
theorem spells_positional_of_nonneg {d : Decimal} (hnonneg : 0 ≤ d.exponent) (pointed : Bool) :
    Spells (positionalText pointed d).toList d := by
  have hdigits := isWhole_toDigits d.digits
  have htext : (positionalText pointed d).toList =
      (Nat.toDigits 10 d.digits ++ List.replicate d.exponent.toNat '0') ++
        (fractionChars (List.replicate pointed.toNat '0') ++ []) := by
    cases pointed <;> simp [positionalText, hnonneg, Nat.toList_repr, fractionChars]
  have hvalue (n : Nat) : Nat.ofDigitChars 10 (Nat.toDigits 10 d.digits ++
      List.replicate n '0') 0 = 10 ^ n * d.digits := by
    rw [ofDigitChars_toDigits_append, Nat.ofDigitChars_replicate_zero]
  have hpower : (10 : ℚ) ^ d.exponent = 10 ^ d.exponent.toNat := by
    rw [← zpow_natCast, Int.toNat_of_nonneg hnonneg]
  rw [htext]
  refine .of_parts (fun c hc => ?_)
    (List.append_ne_nil_of_left_ne_nil hdigits.nonempty _) (isDigit_replicate_zero _)
    (by rintro c ⟨⟩) rfl (by rintro c ⟨⟩) ?_
  · rcases List.mem_append.mp hc with hc | hc
    · exact hdigits.digits c hc
    · exact isDigit_replicate_zero _ c hc
  · rw [List.append_assoc, List.replicate_append_replicate, hvalue, toRat, hpower,
      List.length_replicate, zero_sub, zpow_neg, zpow_natCast, pow_add]
    push_cast
    field_simp

/-- The positional notation. -/
theorem spells_positionalText (pointed : Bool) (d : Decimal) :
    Spells (positionalText pointed d).toList d := by
  rcases Int.lt_or_le d.exponent 0 with hneg | hnonneg
  · exact spells_positional_of_neg hneg pointed
  · exact spells_positional_of_nonneg hnonneg pointed

theorem spells_text (format : Notation) (d : Decimal) : Spells (format.text d).toList d := by
  rw [Notation.text]
  split
  · exact spells_positionalText _ d
  · exact spells_exponentText _ d

/-! ## Rounding -/

theorem length_toString_bounds {n : Nat} (hn : n ≠ 0) :
    10 ^ ((toString n).length - 1) ≤ n ∧ n < 10 ^ (toString n).length := by
  have hlength : (toString n).length = (Nat.toDigits 10 n).length := by
    rw [← String.length_toList]
    exact congrArg List.length Nat.toList_repr
  have hpos : 0 < (Nat.toDigits 10 n).length := List.length_pos_of_ne_nil Nat.toDigits_ne_nil
  rw [hlength]
  refine ⟨?_, (Nat.length_toDigits_le_iff (by decide) hpos).mp le_rfl⟩
  rcases Nat.eq_zero_or_pos ((Nat.toDigits 10 n).length - 1) with hzero | hmore
  · rw [hzero]
    exact Nat.one_le_iff_ne_zero.mpr hn
  · by_contra hlt
    have := (Nat.length_toDigits_le_iff (by decide) hmore).mpr (not_le.mp hlt)
    omega

/-- A decimal that rounds to a number of the type is not taken for zero or infinity at once. -/
theorem size_in_range {digits m : Nat} {exponent e : Int} (hfits : Fits m e) (hm : m ≠ 0)
    (hne : digits ≠ 0) (h : RoundsTo ((digits : ℚ) * 10 ^ exponent) m e) :
    -400 ≤ exponent + (toString digits).length ∧ exponent + (toString digits).length ≤ 400 := by
  obtain ⟨hfrom, hto⟩ := length_toString_bounds hne
  have hbounds := h.size_bounds (Nat.one_le_iff_ne_zero.mpr hm)
  rw [Nat.cast_one, one_mul] at hbounds
  obtain ⟨hbelow, habove⟩ := abs_le.mp hbounds
  have hsmall := le_ofNumber_size hm hfits.least
  have hlarge := ofNumber_size_lt (e := e) hfits.mantissa hfits.greatest
  rw [ofNumber_size] at hsmall hlarge
  have hfar : (2 : ℚ) ^ (1075 : ℤ) ≤ 10 ^ (400 : ℤ) := by
    have hnat : 2 ^ 1075 ≤ 10 ^ 400 := by decide +kernel
    exact_mod_cast hnat
  have hdouble : (2 : ℚ) ^ (1024 : ℤ) * 2 ≤ 2 ^ (1075 : ℤ) := by
    rw [← zpow_add_one₀ two_ne_zero]
    exact zpow_le_zpow_right₀ one_le_two (by decide)
  have hhalf : (2 : ℚ) ^ (-1075 : ℤ) = 2 ^ (-1074 : ℤ) / 2 := by
    rw [show (-1075 : ℤ) = -1074 - 1 by norm_num, zpow_sub_one₀ two_ne_zero, div_eq_mul_inv]
  generalize (toString digits).length = length at hfrom hto ⊢
  have hlow : (10 : ℚ) ^ (-400 : ℤ) < 10 ^ (exponent + length) := by
    calc (10 : ℚ) ^ (-400 : ℤ) ≤ 2 ^ (-1075 : ℤ) := by
          rw [zpow_neg, zpow_neg, inv_le_inv₀ (by positivity) (by positivity)]
          exact hfar
      _ ≤ digits * 10 ^ exponent := by
          generalize (2 : ℚ) ^ (-1074 : ℤ) = least at hsmall hhalf
          linarith
      _ < 10 ^ length * 10 ^ exponent := by
          gcongr
          exact_mod_cast hto
      _ = 10 ^ (exponent + length) := by
          rw [zpow_add₀ (by norm_num), zpow_natCast, mul_comm]
  have hhigh : (10 : ℚ) ^ (exponent + (length - 1 : Nat)) < 10 ^ (400 : ℤ) := by
    calc (10 : ℚ) ^ (exponent + (length - 1 : Nat)) = (10 ^ (length - 1) : Nat) * 10 ^ exponent := by
          rw [zpow_add₀ (by norm_num), zpow_natCast, mul_comm]
          push_cast
          rfl
      _ ≤ digits * 10 ^ exponent := by
          gcongr
      _ < 2 ^ (1024 : ℤ) * 2 := by
          generalize (2 : ℚ) ^ (1024 : ℤ) = top at hlarge
          have hsize : 0 ≤ (m : ℚ) * 2 ^ e := by positivity
          linarith
      _ ≤ 10 ^ (400 : ℤ) := hdouble.trans hfar
  have hlow' := (zpow_lt_zpow_iff_right₀ (by norm_num)).mp hlow
  have hhigh' := (zpow_lt_zpow_iff_right₀ (by norm_num)).mp hhigh
  omega

/-- A decimal is rounded to the number that it rounds to. -/
theorem round_of_roundsTo {digits m : Nat} {exponent e : Int} (hfits : Fits m e) (hm : m ≠ 0)
    (hne : digits ≠ 0) (h : RoundsTo ((digits : ℚ) * 10 ^ exponent) m e) (negative : Bool) :
    round negative digits exponent = ofMagnitude negative (magnitudeOf m e) := by
  obtain ⟨hlow, hhigh⟩ := size_in_range hfits hm hne h
  have hnum : digits * Power.num 10 exponent ≠ 0 :=
    mul_ne_zero hne (Power.num_pos (by decide) exponent).ne'
  have hden : Power.den 10 exponent ≠ 0 := (Power.den_pos (by decide) exponent).ne'
  have hratio : ((digits * Power.num 10 exponent : Nat) : ℚ) / Power.den 10 exponent =
      digits * 10 ^ exponent := by
    rw [Nat.cast_mul, mul_div_assoc, Power.num_div_den (by decide), Nat.cast_ofNat]
  have hzero : (decide (digits = 0) || decide (exponent + (toString digits).length < -400)) =
      false := by
    simp only [Bool.or_eq_false_iff, decide_eq_false_iff_not]
    omega
  rw [round, hzero, if_neg Bool.false_ne_true, if_neg (by omega)]
  exact ofRatio_of_roundsTo hnum hden hfits (hratio ▸ h) negative

/-! ## Literals -/

/-- A digit in front is neither a sign nor the start of a word. -/
theorem parse?_of_spells {cs : List Char} {d : Decimal} (h : Spells cs d) (negative : Bool) :
    parse? ((if negative then "-" else "") ++ String.ofList cs) = unsigned? negative cs := by
  obtain ⟨c, rest, rfl, hc⟩ := h.starts
  have hdigit : c ≠ '-' ∧ c ≠ '+' := by
    constructor <;> rintro rfl <;> exact absurd hc (by decide)
  have hsign : sign ((if negative then "-" else "") ++ String.ofList (c :: rest)).toList =
      (negative, c :: rest) := by
    rw [String.toList_append, String.toList_ofList]
    cases negative with
    | true => rfl
    | false =>
        change sign (c :: rest) = _
        unfold sign
        split
        next heq => exact absurd (List.cons.inj heq).1 hdigit.1
        next heq => exact absurd (List.cons.inj heq).1 hdigit.2
        next => rfl
  have hlower : c.toLower = c := by
    have hrange := hc
    simp only [Char.isDigit, Bool.and_eq_true, decide_eq_true_eq] at hrange
    rw [Char.toLower, dif_neg]
    rintro ⟨hupper, -⟩
    exact absurd (UInt32.le_trans hupper hrange.2) (by decide)
  have hword (word : String) (hstart : ∀ first ∈ word.toList.head?, first.isDigit = false) :
      String.ofList ((c :: rest).map Char.toLower) ≠ word := by
    rintro rfl
    rw [String.toList_ofList, List.map_cons, hlower] at hstart
    rw [hstart c rfl] at hc
    cases hc
  rw [parse?, hsign]
  simp only
  rw [if_neg, if_neg (hword "nan" (by simp))]
  simp only [Bool.or_eq_true, decide_eq_true_eq, not_or]
  exact ⟨hword "inf" (by simp), hword "infinity" (by simp)⟩

end Literal
end Decimal

namespace Binary64
open Decimal Decimal.Literal

/-- The text of a finite number: its sign and a text of a decimal that rounds to its magnitude. -/
theorem text_of_isFinite {x : Binary64} (h : x.isFinite = true) (format : Notation) :
    ∃ cs d, x.text format = (if x.isNegative then "-" else "") ++ String.ofList cs ∧ Spells cs d ∧
      ∀ digits : Nat, ∀ exponent : Int, (digits : ℚ) * 10 ^ exponent = d.toRat →
        round x.isNegative digits exponent = x := by
  obtain ⟨m, e, hview, hfits, hmagnitude⟩ := view_of_isFinite h
  have hself := ofMagnitude_self x
  rw [hmagnitude] at hself
  refine ⟨(format.text (if m = 0 then ⟨0, 0⟩ else shortest m e)).toList,
    if m = 0 then ⟨0, 0⟩ else shortest m e, ?_, spells_text format _, ?_⟩
  · rw [text, hview, String.ofList_toList]
  · intro digits exponent hvalue
    have hpow : (0 : ℚ) < 10 ^ exponent := by positivity
    by_cases hm : m = 0
    · subst hm
      obtain rfl : e = -1074 := hfits.leading.resolve_right (by decide)
      rw [if_pos rfl, toRat, Nat.cast_zero, zero_mul, mul_eq_zero, Nat.cast_eq_zero] at hvalue
      obtain rfl := hvalue.resolve_right hpow.ne'
      exact hself
    · obtain ⟨hrounds, hne⟩ := roundsTo_shortest hfits hm
      rw [if_neg hm] at hvalue
      have hdigits : digits ≠ 0 := by
        rintro rfl
        rw [Nat.cast_zero, zero_mul, toRat, eq_comm, mul_eq_zero, Nat.cast_eq_zero] at hvalue
        exact hvalue.elim hne (zpow_pos (by norm_num) _).ne'
      rw [round_of_roundsTo hfits hm hdigits (hvalue ▸ hrounds), hself]

/-- A finite number is read back from its text. -/
theorem parse?_text {x : Binary64} (h : x.isFinite = true) (format : Notation) :
    parse? (x.text format) = some x := by
  obtain ⟨cs, d, htext, hspells, hround⟩ := text_of_isFinite h format
  obtain ⟨digits, exponent, hvalue, hreads⟩ := hspells.reads
  rw [htext, parse?_of_spells hspells, hreads, hround digits exponent hvalue]

/-- Finite numbers with one text are one number. -/
theorem eq_of_text_eq {x y : Binary64} (hx : x.isFinite = true) (hy : y.isFinite = true)
    {format : Notation} (h : x.text format = y.text format) : x = y := by
  have hread := congrArg parse? h
  rw [parse?_text hx, parse?_text hy] at hread
  exact Option.some.inj hread

theorem mem_text {x : Binary64} (h : x.isFinite = true) {format : Notation} {c : Char}
    (hc : c ∈ (x.text format).toList) : c.isDigit = true ∨ c ∈ ['+', '-', '.', 'e'] := by
  obtain ⟨cs, d, htext, hspells, -⟩ := text_of_isFinite h format
  rw [htext, String.toList_append, String.toList_ofList] at hc
  rcases List.mem_append.mp hc with hsign | hc
  · right
    split at hsign
    next => exact (List.mem_singleton.mp hsign) ▸ by decide
    next => cases hsign
  · exact hspells.chars c hc

end Binary64
end WalletEngine
