/-! # Reading natural numbers

Digits with an optional plus sign, below a bound. There is no other sign, no blank and no separator.
-/

namespace WalletEngine.Decimal

/-- The number that a text of digits stands for, if it is below the bound. -/
def natural? (bound : Nat) (s : String) : Option Nat :=
  let digits := match s.toList with
    | '+' :: rest => rest
    | cs => cs
  let n := digits.foldl (fun n c => 10 * n + (c.toNat - 48)) 0
  if !digits.isEmpty && digits.all Char.isDigit && n < bound then some n else none

/-- The digits are those of the number. -/
def AreDigits (digits : List Char) (n : Nat) : Prop :=
  digits ≠ [] ∧ (∀ c ∈ digits, c.isDigit = true) ∧ Nat.ofDigitChars 10 digits 0 = n

/-- The text is the number in digits, with or without a plus sign in front. -/
def IsNumeral (s : String) (n : Nat) : Prop :=
  AreDigits s.toList n ∨ ∃ digits, s.toList = '+' :: digits ∧ AreDigits digits n

theorem isNumeral_plus_iff {s : String} {n : Nat} {digits : List Char} (h : s.toList = '+' :: digits) :
    IsNumeral s n ↔ AreDigits digits n := by
  rw [IsNumeral, h]
  constructor
  · rintro (⟨-, hdigit, -⟩ | ⟨others, heq, hothers⟩)
    · exact absurd (hdigit '+' List.mem_cons_self) (by decide)
    · obtain ⟨-, rfl⟩ := List.cons.inj heq
      exact hothers
  · exact fun hdigits => .inr ⟨digits, rfl, hdigits⟩

theorem areDigits_iff {bound n : Nat} (digits : List Char) :
    (if !digits.isEmpty && digits.all Char.isDigit && decide (Nat.ofDigitChars 10 digits 0 < bound)
      then some (Nat.ofDigitChars 10 digits 0) else none) = some n ↔
      AreDigits digits n ∧ n < bound := by
  rw [Option.ite_none_right_eq_some, AreDigits]
  simp only [Bool.and_eq_true, Bool.not_eq_true', List.isEmpty_eq_false_iff, List.all_eq_true,
    decide_eq_true_eq, Option.some.injEq]
  constructor
  · rintro ⟨⟨⟨hne, hall⟩, hlt⟩, rfl⟩
    exact ⟨⟨hne, hall, rfl⟩, hlt⟩
  · rintro ⟨⟨hne, hall, rfl⟩, hlt⟩
    exact ⟨⟨⟨hne, hall⟩, hlt⟩, rfl⟩

theorem natural?_eq_some_iff {bound n : Nat} {s : String} :
    natural? bound s = some n ↔ IsNumeral s n ∧ n < bound := by
  rw [natural?]
  split
  next rest hs =>
    rw [isNumeral_plus_iff hs]
    exact areDigits_iff rest
  next hnot =>
    have hdigits : IsNumeral s n ↔ AreDigits s.toList n :=
      or_iff_left fun ⟨digits, hs, _⟩ => hnot digits hs
    rw [hdigits]
    exact areDigits_iff s.toList

end WalletEngine.Decimal
