import Mathlib.Algebra.Group.Nat.Defs
import WalletEngine.Json.Tree
import WalletEngine.Proofs.Json.Scalars

/-! # Numbers in a text

The number reader gathers the digits of a text into one significand and one power of ten. For the
text of a natural and for both notations of a decimal the two are found here, as long as the digits
fit 64 bits; what float they make is another matter.
-/

namespace WalletEngine.Json.Reader
open Steps

/-- Digits without a needless zero in front. -/
structure IsWhole (whole : List Char) : Prop where
  digits : ∀ c ∈ whole, c.isDigit = true
  nonempty : whole ≠ []
  leading : whole = ['0'] ∨ whole.head? ≠ some '0'

theorem not_digit_of_stops {rest : List Symbol} (h : Stops rest) :
    ∀ s ∈ rest.head?, s.isDigit = false :=
  fun s hs => (h s hs).1

theorem digits_apply {ds : List Char} (hds : ∀ c ∈ ds, c.isDigit = true) {rest : List Symbol}
    (hrest : ∀ s ∈ rest.head?, s.isDigit = false) :
    digits (ds.map .char ++ rest) = .ok (ds.map .char, rest) := by
  have hall : ∀ s ∈ ds.map Symbol.char, s.isDigit = true := by
    intro s hs
    obtain ⟨c, hc, rfl⟩ := List.mem_map.mp hs
    exact hds c hc
  have htake : rest.takeWhile Symbol.isDigit = [] := by
    cases rest with
    | nil => rfl
    | cons s rest => rw [List.takeWhile_cons_of_neg (by simp [hrest s rfl])]
  have hdrop : rest.dropWhile Symbol.isDigit = rest := by
    cases rest with
    | nil => rfl
    | cons s rest => rw [List.dropWhile_cons_of_neg (by simp [hrest s rfl])]
  rw [digits, List.takeWhile_append_of_pos hall, List.dropWhile_append_of_pos hall, htake, hdrop,
    List.append_nil]

theorem le_ofDigitChars (ds : List Char) (n : Nat) : n ≤ Nat.ofDigitChars 10 ds n := by
  induction ds generalizing n with
  | nil => exact Nat.le_refl n
  | cons c ds ih =>
      rw [Nat.ofDigitChars_cons]
      exact Nat.le_trans (by omega) (ih _)

theorem absorb_apply (ds : List Char) (n : Nat) (hfit : Nat.ofDigitChars 10 ds n < UInt64.size) :
    absorb n (ds.map .char) = (Nat.ofDigitChars 10 ds n, []) := by
  induction ds generalizing n with
  | nil => rfl
  | cons c ds ih =>
      rw [Nat.ofDigitChars_cons] at hfit
      have hle := le_ofDigitChars ds (10 * n + (c.toNat - '0'.toNat))
      have hnext : 10 * n + digitValue (.char c) < UInt64.size := Nat.lt_of_le_of_lt hle hfit
      rw [List.map_cons, absorb, if_pos hnext, Nat.ofDigitChars_cons]
      exact ih _ hfit

/-- What follows the whole part of a number decides how it goes on. -/
def afterWhole (negative : Bool) (significand : Nat) : Option Symbol → Reader Number
  | some (.char '.') => withFraction negative significand 0
  | some (.char 'e') | some (.char 'E') => withExponent negative significand 0
  | _ => pure (integral negative significand)

theorem number_whole {whole : List Char} (h : IsWhole whole) (negative : Bool)
    {rest : List Symbol} (hrest : ∀ s ∈ rest.head?, s.isDigit = false)
    (hfit : Nat.ofDigitChars 10 whole 0 < UInt64.size) :
    number negative (whole.map .char ++ rest) =
      afterWhole negative (Nat.ofDigitChars 10 whole 0) rest.head? rest := by
  obtain ⟨c, cs, rfl⟩ := List.exists_cons_of_ne_nil h.nonempty
  have hc : Symbol.isDigit (.char c) = true := h.digits c (by simp)
  -- A leading zero is taken by itself, so it must be the only digit.
  have hpick : (if ((c :: cs).map Symbol.char ++ rest).head? = some (.char '0') then
      Except.ok (((c :: cs).map Symbol.char ++ rest).take 1,
        ((c :: cs).map Symbol.char ++ rest).tail)
      else digits ((c :: cs).map .char ++ rest)) = .ok ((c :: cs).map .char, rest) := by
    rcases h.leading with hzero | hlead
    · rw [hzero]
      rfl
    · have hne : c ≠ '0' := by simpa using hlead
      rw [if_neg (by simpa using hne)]
      exact digits_apply h.digits hrest
  have hnext : (rest.head?.map Symbol.isDigit).getD false = false := by
    cases hhead : rest.head? with
    | none => rfl
    | some s => exact hrest s hhead
  have htail : (peek? >>= fun next => match next with
      | some (.char '.') => withFraction negative (Nat.ofDigitChars 10 (c :: cs) 0) 0
      | some (.char 'e') | some (.char 'E') =>
        withExponent negative (Nat.ofDigitChars 10 (c :: cs) 0) 0
      | _ => pure (integral negative (Nat.ofDigitChars 10 (c :: cs) 0)) : Reader Number) rest =
      afterWhole negative (Nat.ofDigitChars 10 (c :: cs) 0) rest.head? rest := by
    rw [bind_of_ok (peek?_apply rest)]
    rfl
  rw [number, List.map_cons, List.cons_append, bind_of_ok (peek?_cons _ _)]
  simp only [hc, Bool.not_true, Bool.false_eq_true, if_false]
  rw [bind_of_ok hpick]
  simp only [absorb_apply _ _ hfit]
  split
  next =>
    rw [bind_of_ok (peek?_apply rest)]
    simp only [hnext, Bool.false_eq_true, if_false]
    exact htail
  next => exact htail

theorem afterWhole_of_stops {rest : List Symbol} (h : Stops rest) (negative : Bool)
    (significand : Nat) :
    afterWhole negative significand rest.head? = pure (integral negative significand) := by
  unfold afterWhole
  split
  next hhead => exact absurd rfl (h _ hhead).2.1
  next hhead => exact absurd rfl (h _ hhead).2.2.1
  next hhead => exact absurd rfl (h _ hhead).2.2.2
  next => rfl

/-! ## Integers -/

theorem head?_toDigits {n : Nat} (hn : n ≠ 0) : (Nat.toDigits 10 n).head? ≠ some '0' := by
  -- The first digit is the one that is left when all others have been divided away.
  induction n using Nat.strongRecOn with
  | ind n ih =>
      rw [Nat.toDigits_eq_if (by decide)]
      split
      next hlt =>
        have hall : ∀ n : Fin 10, n.val ≠ 0 → [n.val.digitChar].head? ≠ some '0' := by decide
        exact hall ⟨n, hlt⟩ hn
      next hge =>
        rw [List.head?_append, Option.or_of_isSome (by simp [Nat.toDigits_ne_nil])]
        exact ih (n / 10) (by omega) (by omega)

theorem isWhole_toDigits (n : Nat) : IsWhole (Nat.toDigits 10 n) where
  digits := fun _ hc => Nat.isDigit_of_mem_toDigits (by decide) (by decide) hc
  nonempty := Nat.toDigits_ne_nil
  leading := by
    by_cases hn : n = 0
    · exact Or.inl (by rw [hn, Nat.toDigits_zero])
    · exact Or.inr (head?_toDigits hn)

/-- The digits of a natural number are read as that number. -/
theorem number_toDigits (negative : Bool) {n : Nat} (hn : n < UInt64.size) {rest : List Symbol}
    (hrest : Stops rest) :
    number negative ((Nat.toDigits 10 n).map .char ++ rest) = .ok (integral negative n, rest) := by
  have hvalue : Nat.ofDigitChars 10 (Nat.toDigits 10 n) 0 = n := Nat.ofDigitChars_ten_toDigits
  rw [number_whole (isWhole_toDigits n) negative (fun s hs => (hrest s hs).1)
    (hvalue.symm ▸ hn), afterWhole_of_stops hrest, hvalue, pure_apply]

/-! ## Fractions and exponents -/

theorem exponentValue_apply (ds : List Char) (n : Nat)
    (hfit : Nat.ofDigitChars 10 ds n ≤ exponentLimit) :
    exponentValue n (ds.map .char) = .ok (Nat.ofDigitChars 10 ds n) := by
  induction ds generalizing n with
  | nil => rfl
  | cons c ds ih =>
      rw [Nat.ofDigitChars_cons] at hfit
      have hle := le_ofDigitChars ds (10 * n + (c.toNat - '0'.toNat))
      have hnext : ¬exponentLimit < 10 * n + digitValue (.char c) :=
        Nat.not_lt.mpr (Nat.le_trans hle hfit)
      rw [List.map_cons, exponentValue, if_neg hnext, Nat.ofDigitChars_cons]
      exact ih _ hfit

/-- A point and digits behind a whole part of a number. -/
theorem withFraction_apply {fraction : List Char} (hdigits : ∀ c ∈ fraction, c.isDigit = true)
    (hne : fraction ≠ []) (negative : Bool) (significand : Nat)
    (hfit : Nat.ofDigitChars 10 fraction significand < UInt64.size) {rest : List Symbol}
    (hrest : ∀ s ∈ rest.head?, s.isDigit = false) :
    withFraction negative significand 0 (.char '.' :: (fraction.map .char ++ rest)) =
      optionalExponent negative (Nat.ofDigitChars 10 fraction significand)
        (-(fraction.length : Int)) rest := by
  have hempty : (fraction.map Symbol.char).isEmpty = false := by
    simpa using hne
  rw [withFraction, bind_of_ok (skip_cons _ _), bind_of_ok (digits_apply hdigits hrest)]
  simp only [absorb_apply _ _ hfit, hempty, Bool.false_eq_true, if_false]
  simp

theorem optionalExponent_of_stops {rest : List Symbol} (h : Stops rest) (negative : Bool)
    (significand : Nat) (start : Int) :
    optionalExponent negative significand start rest = scaled negative significand start rest := by
  rw [optionalExponent, bind_of_ok (peek?_apply rest)]
  refine congrFun ?_ rest
  split
  next hhead => exact absurd rfl (h _ hhead).2.2.1
  next hhead => exact absurd rfl (h _ hhead).2.2.2
  next => rfl

theorem withExponent_apply {ds : List Char} (hdigits : ∀ c ∈ ds, c.isDigit = true)
    (hne : ds ≠ []) (hfit : Nat.ofDigitChars 10 ds 0 ≤ exponentLimit)
    (negative below : Bool) (significand : Nat) (start : Int) {rest : List Symbol}
    (hrest : ∀ s ∈ rest.head?, s.isDigit = false) :
    withExponent negative significand start
      (.char 'e' :: .char (if below then '-' else '+') :: (ds.map .char ++ rest)) =
      scaled negative significand (clampExponent (if below then
        start - (Nat.ofDigitChars 10 ds 0 : Nat) else start + (Nat.ofDigitChars 10 ds 0 : Nat)))
        rest := by
  have htake := digits_apply hdigits hrest
  have hvalue := exponentValue_apply ds 0 hfit
  obtain ⟨d, ds, rfl⟩ := List.exists_cons_of_ne_nil hne
  have hd : Symbol.isDigit (.char d) = true := hdigits d (by simp)
  rw [List.map_cons, List.cons_append] at htake ⊢
  cases below with
  | false =>
      change (if (!Symbol.isDigit (.char d)) = true then _ else _ : Reader Number)
        (.char d :: (ds.map .char ++ rest)) = _
      rw [hd]
      refine (bind_of_ok htake).trans ?_
      rw [← List.map_cons, hvalue]
  | true =>
      change (if (!Symbol.isDigit (.char d)) = true then _ else _ : Reader Number)
        (.char d :: (ds.map .char ++ rest)) = _
      rw [hd]
      refine (bind_of_ok htake).trans ?_
      rw [← List.map_cons, hvalue]

/-! ## Decimals -/

theorem ofDigitChars_toDigits_append (n : Nat) (ds : List Char) :
    Nat.ofDigitChars 10 (Nat.toDigits 10 n ++ ds) 0 = Nat.ofDigitChars 10 ds n := by
  rw [Nat.ofDigitChars_append, Nat.ofDigitChars_ten_toDigits]

theorem isDigit_replicate_zero (k : Nat) : ∀ c ∈ List.replicate k '0', c.isDigit = true := by
  intro c hc
  rw [List.eq_of_mem_replicate hc]
  rfl

/-- A whole part and a fraction, with no exponent behind them. -/
theorem number_fraction {whole fraction : List Char} (hwhole : IsWhole whole)
    (hdigits : ∀ c ∈ fraction, c.isDigit = true) (hne : fraction ≠ []) (negative : Bool)
    (hfit : Nat.ofDigitChars 10 (whole ++ fraction) 0 < UInt64.size) {rest : List Symbol}
    (hrest : ∀ s ∈ rest.head?, s.isDigit = false) :
    number negative ((whole ++ '.' :: fraction).map .char ++ rest) =
      optionalExponent negative (Nat.ofDigitChars 10 (whole ++ fraction) 0)
        (-(fraction.length : Int)) rest := by
  rw [Nat.ofDigitChars_append] at hfit ⊢
  have hwholeFit : Nat.ofDigitChars 10 whole 0 < UInt64.size :=
    Nat.lt_of_le_of_lt (le_ofDigitChars fraction _) hfit
  rw [List.map_append, List.append_assoc, List.map_cons, List.cons_append,
    number_whole hwhole negative ?_ hwholeFit]
  · exact withFraction_apply hdigits hne negative _ hfit hrest
  · intro s hs
    obtain rfl : .char '.' = s := by simpa using hs
    rfl

theorem number_exponent {whole ds : List Char} (hwhole : IsWhole whole)
    (hdigits : ∀ c ∈ ds, c.isDigit = true) (hne : ds ≠ []) (negative below : Bool)
    (hfit : Nat.ofDigitChars 10 whole 0 < UInt64.size)
    (hlimit : Nat.ofDigitChars 10 ds 0 ≤ exponentLimit) {rest : List Symbol}
    (hrest : ∀ s ∈ rest.head?, s.isDigit = false) :
    number negative ((whole ++ 'e' :: (if below then '-' else '+') :: ds).map .char ++ rest) =
      scaled negative (Nat.ofDigitChars 10 whole 0) (clampExponent (if below then
        0 - (Nat.ofDigitChars 10 ds 0 : Nat) else 0 + (Nat.ofDigitChars 10 ds 0 : Nat))) rest := by
  rw [List.map_append, List.append_assoc, List.map_cons, List.map_cons, List.cons_append,
    List.cons_append, number_whole hwhole negative ?_ hfit]
  · exact withExponent_apply hdigits hne hlimit negative below _ 0 hrest
  · intro s hs
    obtain rfl : .char 'e' = s := by simpa using hs
    rfl

theorem number_fraction_exponent {whole fraction ds : List Char} (hwhole : IsWhole whole)
    (hfraction : ∀ c ∈ fraction, c.isDigit = true) (hfractionNe : fraction ≠ [])
    (hdigits : ∀ c ∈ ds, c.isDigit = true) (hne : ds ≠ []) (negative below : Bool)
    (hfit : Nat.ofDigitChars 10 (whole ++ fraction) 0 < UInt64.size)
    (hlimit : Nat.ofDigitChars 10 ds 0 ≤ exponentLimit) {rest : List Symbol}
    (hrest : ∀ s ∈ rest.head?, s.isDigit = false) :
    number negative ((whole ++ '.' :: (fraction ++
      'e' :: (if below then '-' else '+') :: ds)).map .char ++ rest) =
      scaled negative (Nat.ofDigitChars 10 (whole ++ fraction) 0) (clampExponent (if below then
        -(fraction.length : Int) - (Nat.ofDigitChars 10 ds 0 : Nat)
        else -(fraction.length : Int) + (Nat.ofDigitChars 10 ds 0 : Nat))) rest := by
  have hsplit : (whole ++ '.' :: (fraction ++
      'e' :: (if below then '-' else '+') :: ds)).map Symbol.char ++ rest =
      (whole ++ '.' :: fraction).map .char ++
        (.char 'e' :: .char (if below then '-' else '+') :: (ds.map .char ++ rest)) := by
    simp
  rw [hsplit, number_fraction hwhole hfraction hfractionNe negative hfit ?_]
  · exact withExponent_apply hdigits hne hlimit negative below _ _ hrest
  · intro s hs
    obtain rfl : .char 'e' = s := by simpa using hs
    rfl

open Decimal

/-- A positional text with zeros before its point. -/
theorem number_positional_of_nonneg {d : Decimal} (hexp : 0 ≤ d.exponent)
    (hd : d.digits ≠ 0 ∨ d.exponent = 0)
    (hfit : 10 ^ (d.exponent.toNat + 1) * d.digits < UInt64.size) (negative : Bool)
    {rest : List Symbol} (hrest : Stops rest) :
    number negative ((positionalText true d).toList.map .char ++ rest) =
      scaled negative (10 ^ (d.exponent.toNat + 1) * d.digits) (-1) rest := by
  have htext : (positionalText true d).toList =
      (Nat.toDigits 10 d.digits ++ List.replicate d.exponent.toNat '0') ++ '.' :: ['0'] := by
    simp [positionalText, hexp, Nat.toList_repr]
  have hvalue : Nat.ofDigitChars 10
      ((Nat.toDigits 10 d.digits ++ List.replicate d.exponent.toNat '0') ++ ['0']) 0 =
      10 ^ (d.exponent.toNat + 1) * d.digits := by
    rw [List.append_assoc, ofDigitChars_toDigits_append,
      ← List.replicate_succ' (n := d.exponent.toNat), Nat.ofDigitChars_replicate_zero]
  have hwhole : IsWhole (Nat.toDigits 10 d.digits ++ List.replicate d.exponent.toNat '0') := by
    have hlead := isWhole_toDigits d.digits
    refine ⟨?_, by simp [hlead.nonempty], ?_⟩
    · intro c hc
      rcases List.mem_append.mp hc with hc | hc
      · exact hlead.digits c hc
      · exact isDigit_replicate_zero _ c hc
    · rcases hd with hd | hd
      · right
        rw [List.head?_append, Option.or_of_isSome (by simp [hlead.nonempty])]
        exact head?_toDigits hd
      · simpa [hd] using hlead.leading
  have hzero : ∀ c ∈ ['0'], c.isDigit = true := isDigit_replicate_zero 1
  rw [htext, number_fraction hwhole hzero (by simp) negative (hvalue.symm ▸ hfit)
    (not_digit_of_stops hrest), hvalue, optionalExponent_of_stops hrest]
  rfl

/-- The digits of a number, with zeros in front if there are no more than the places behind the
point. -/
def paddedDigits (n places : Nat) : List Char :=
  List.replicate (places + 1 - (Nat.toDigits 10 n).length) '0' ++ Nat.toDigits 10 n

theorem lt_length_paddedDigits (n places : Nat) : places < (paddedDigits n places).length := by
  rw [paddedDigits, List.length_append, List.length_replicate]
  omega

theorem ofDigitChars_paddedDigits (n places : Nat) :
    Nat.ofDigitChars 10 (paddedDigits n places) 0 = n := by
  rw [paddedDigits, Nat.ofDigitChars_append, Nat.ofDigitChars_replicate_zero, Nat.mul_zero,
    Nat.ofDigitChars_ten_toDigits]

theorem isDigit_paddedDigits {n places : Nat} {c : Char} (hc : c ∈ paddedDigits n places) :
    c.isDigit = true := by
  rcases List.mem_append.mp hc with hzeros | hdigits
  · exact isDigit_replicate_zero _ c hzeros
  · exact (isWhole_toDigits n).digits c hdigits

/-- What stands before the point is one zero, or the first digits of a number that has more digits
than places. -/
theorem isWhole_take_paddedDigits {n places : Nat} (hplaces : 0 < places) :
    IsWhole ((paddedDigits n places).take ((paddedDigits n places).length - places)) := by
  have hlength := lt_length_paddedDigits n places
  refine ⟨fun c hc => isDigit_paddedDigits (List.mem_of_mem_take hc), ?_, ?_⟩
  · intro hnil
    have hzero := congrArg List.length hnil
    simp only [List.length_take, List.length_nil] at hzero
    omega
  · by_cases hshort : (Nat.toDigits 10 n).length ≤ places
    · left
      have hone : (paddedDigits n places).length - places = 1 := by
        rw [paddedDigits, List.length_append, List.length_replicate]
        omega
      obtain ⟨k, hk⟩ : ∃ k, places + 1 - (Nat.toDigits 10 n).length = k + 1 :=
        ⟨places - (Nat.toDigits 10 n).length, by omega⟩
      rw [hone, paddedDigits, hk]
      simp [List.replicate_succ]
    · right
      have hplain : paddedDigits n places = Nat.toDigits 10 n := by
        rw [paddedDigits, show places + 1 - (Nat.toDigits 10 n).length = 0 by omega]
        rfl
      rw [hplain, List.head?_take, if_neg (by omega)]
      apply head?_toDigits
      rintro rfl
      rw [Nat.toDigits_zero] at hshort
      exact hshort hplaces

/-- A positional text with digits of the decimal behind its point. -/
theorem number_positional_of_neg {d : Decimal} (hexp : d.exponent < 0)
    (hfit : d.digits < UInt64.size) (negative : Bool)
    {rest : List Symbol} (hrest : Stops rest) :
    number negative ((positionalText true d).toList.map .char ++ rest) =
      scaled negative d.digits d.exponent rest := by
  obtain ⟨places, hplaces⟩ : ∃ places : Nat, d.exponent = -(places : Int) :=
    ⟨d.exponent.natAbs, by omega⟩
  have hpos : 0 < places := by omega
  have htext : (positionalText true d).toList =
      (paddedDigits d.digits places).take ((paddedDigits d.digits places).length - places) ++
        '.' :: (paddedDigits d.digits places).drop
          ((paddedDigits d.digits places).length - places) := by
    rw [positionalText, if_neg (by omega)]
    simp only [show (-d.exponent).toNat = places by omega, Nat.toList_repr, toString,
      String.toList_ofList, paddedDigits]
  have hlength := lt_length_paddedDigits d.digits places
  have hwhole := @isWhole_take_paddedDigits d.digits places hpos
  have hvalue := ofDigitChars_paddedDigits d.digits places
  have hdigits : ∀ c ∈ paddedDigits d.digits places, c.isDigit = true :=
    fun _ => isDigit_paddedDigits
  rw [htext]
  generalize paddedDigits d.digits places = padded at hlength hwhole hvalue hdigits ⊢
  have hsplit : padded.take (padded.length - places) ++ padded.drop (padded.length - places) =
      padded := List.take_append_drop _ _
  have hfraction : (padded.drop (padded.length - places)).length = places := by
    rw [List.length_drop]
    omega
  have hnonempty : padded.drop (padded.length - places) ≠ [] := by
    intro hnil
    rw [hnil, List.length_nil] at hfraction
    omega
  rw [number_fraction hwhole (fun c hc => hdigits c (List.mem_of_mem_drop hc)) hnonempty negative
    (by rw [hsplit, hvalue]; exact hfit) (not_digit_of_stops hrest), hsplit, hvalue, hfraction,
    optionalExponent_of_stops hrest, hplaces]

theorem leading_eq (d : Decimal) :
    d.leading = d.exponent + (Nat.toDigits 10 d.digits).length - 1 := by
  rw [Decimal.leading, toString, ← String.length_toList]
  simp only [instToStringNat, Nat.toList_repr]

/-- The power of ten behind the digits, from the one at the first digit. -/
theorem exponent_of_leading {d : Decimal} {start : Int} (h : start = d.exponent - d.leading) :
    (if decide (d.leading < 0) = true then start - (d.leading.natAbs : Int)
      else start + (d.leading.natAbs : Int)) = d.exponent := by
  by_cases hneg : d.leading < 0
  · rw [if_pos (decide_eq_true hneg)]
    omega
  · rw [if_neg (by simpa using hneg)]
    omega

/-- The sign of the exponent. -/
def powerSign (plus : Bool) (d : Decimal) : List Char :=
  if d.leading < 0 then ['-'] else if plus then ['+'] else []

/-- The characters from the letter on. -/
def powerChars (plus : Bool) (d : Decimal) : List Char :=
  'e' :: (powerSign plus d ++ Nat.toDigits 10 d.leading.natAbs)

theorem powerChars_true (d : Decimal) :
    powerChars true d =
      'e' :: (if decide (d.leading < 0) then '-' else '+') :: Nat.toDigits 10 d.leading.natAbs := by
  rw [powerChars, powerSign]
  by_cases hneg : d.leading < 0 <;> simp [hneg]

/-- Digits with a point behind the first one, if there are more. -/
def pointed : List Char → List Char
  | [] => []
  | [first] => [first]
  | first :: second :: rest => first :: '.' :: second :: rest

theorem toList_exponentText (plus : Bool) (d : Decimal) :
    (exponentText plus d).toList = pointed (Nat.toDigits 10 d.digits) ++ powerChars plus d := by
  have hdigits : (toString d.digits).toList = Nat.toDigits 10 d.digits := Nat.toList_repr
  have hpower : (toString d.leading.natAbs).toList = Nat.toDigits 10 d.leading.natAbs :=
    Nat.toList_repr
  rw [exponentText, powerChars, powerSign, hdigits, String.toList_append, String.toList_append,
    hpower, String.toList_ofList]
  rcases Nat.toDigits 10 d.digits with _ | ⟨first, _ | ⟨second, others⟩⟩ <;>
    by_cases hneg : d.leading < 0 <;> cases plus <;> simp [pointed, hneg]

/-- A text with an exponent. -/
theorem number_exponentText {d : Decimal} (hd : d.digits ≠ 0) (hfit : d.digits < UInt64.size)
    (hleading : d.leading.natAbs ≤ exponentLimit) (hexp : d.exponent.natAbs ≤ exponentLimit)
    (negative : Bool) {rest : List Symbol} (hrest : Stops rest) :
    number negative ((exponentText true d).toList.map .char ++ rest) =
      scaled negative d.digits d.exponent rest := by
  have hlead := isWhole_toDigits d.digits
  have hpower := isWhole_toDigits d.leading.natAbs
  have hlength := leading_eq d
  have hvalue : Nat.ofDigitChars 10 (Nat.toDigits 10 d.digits) 0 = d.digits :=
    Nat.ofDigitChars_ten_toDigits
  have hpowerValue : Nat.ofDigitChars 10 (Nat.toDigits 10 d.leading.natAbs) 0 =
      d.leading.natAbs := Nat.ofDigitChars_ten_toDigits
  have hhead := head?_toDigits hd
  have hclamp : clampExponent d.exponent = d.exponent := by
    unfold clampExponent
    omega
  rw [toList_exponentText, powerChars_true]
  -- There is a point in the text exactly if there is more than one digit.
  cases hshape : Nat.toDigits 10 d.digits with
  | nil => exact absurd hshape hlead.nonempty
  | cons first others =>
      rw [hshape] at hlead hlength hvalue hhead
      cases others with
      | nil =>
          have hstart : (0 : Int) = d.exponent - d.leading := by
            rw [List.length_singleton] at hlength
            omega
          rw [pointed, number_exponent hlead hpower.digits hpower.nonempty negative _
            (hvalue.symm ▸ hfit) (hpowerValue.symm ▸ hleading) (not_digit_of_stops hrest), hvalue, hpowerValue,
            exponent_of_leading hstart, hclamp]
      | cons second others =>
          have hstart : -((second :: others).length : Int) = d.exponent - d.leading := by
            rw [List.length_cons] at hlength
            omega
          have hfirst : IsWhole [first] :=
            ⟨fun c hc => hlead.digits c (List.mem_singleton.mp hc ▸ List.mem_cons_self), by simp,
              Or.inr (by simpa using hhead)⟩
          have hjoin : [first] ++ second :: others = first :: second :: others := rfl
          have hnumber := number_fraction_exponent hfirst
            (fun c hc => hlead.digits c (List.mem_cons_of_mem _ hc)) (by simp) hpower.digits
            hpower.nonempty negative (decide (d.leading < 0)) (by rw [hjoin, hvalue]; exact hfit)
            (hpowerValue.symm ▸ hleading) (not_digit_of_stops hrest)
          rw [hjoin, hvalue, hpowerValue, exponent_of_leading hstart, hclamp] at hnumber
          exact hnumber

end WalletEngine.Json.Reader
