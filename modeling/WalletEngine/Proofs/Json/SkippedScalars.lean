import WalletEngine.Json.Skip
import WalletEngine.Proofs.Json.Leaving
import WalletEngine.Proofs.Json.Scalars

/-! # Passing over scalars

A member that nobody asked for is checked for its form only. A scalar that can be read is passed
over, up to the place where its reader stops, and something is taken away.
-/

namespace WalletEngine.Json.Reader
open Steps

variable {α β : Type}

/-- Where `read` stops on what it reads, `pass` stops too. -/
def Passes (pass : Reader Unit) (read : Reader α) : Prop :=
  ∀ text a rest, read text = .ok (a, rest) → pass text = .ok ((), rest)

/-! ## Strings -/

theorem length_of_unit {text rest : List Symbol} {n : Nat} (h : unit text = .ok (n, rest)) :
    rest.length ≤ text.length := by
  rw [unit] at h
  split at h
  next => cases h
  next =>
    split at h
    next =>
      cases h
      simp
    next => cases h

theorem secondEscape_ok {c : Char} {text rest : List Symbol}
    (h : secondEscape c text = .ok ((), rest)) : text = .char c :: rest := by
  cases text with
  | nil => cases h
  | cons s text =>
      rw [secondEscape, bind_of_ok (peek?_cons _ _)] at h
      dsimp only at h
      split at h
      next hs =>
        cases h
        exact hs ▸ rfl
      next => cases h

theorem skipString_escape {text rest : List Symbol} (h : skipEscape text = .ok ((), rest))
    (fuel : Nat) : skipString (fuel + 1) (.char '\\' :: text) = skipString fuel rest := by
  rw [skipString, bind_of_ok (peek?_cons _ _)]
  exact (bind_of_ok (skip_cons _ _)).trans (bind_of_ok h)

theorem skipEscape_unit {text rest : List Symbol} {n : Nat} (h : unit text = .ok (n, rest)) :
    skipEscape (.char 'u' :: text) = .ok ((), rest) := by
  rw [skipEscape, bind_of_ok (peek?_cons _ _)]
  exact (bind_of_ok (skip_cons _ _)).trans (bind_of_ok h)

/-- An escape that is read is passed over in a string, one of a pair of units after the other. -/
theorem skipString_of_escape {text rest : List Symbol} {c : Char}
    (h : escape text = .ok (c, rest)) : rest.length < text.length ∧
      ∀ fuel, text.length < fuel →
        ∃ left, rest.length < left ∧
          skipString (fuel + 1) (.char '\\' :: text) = skipString left rest := by
  rcases text with _ | ⟨⟨letter⟩ | _, text⟩
  · cases h
  · by_cases hu : letter = 'u'
    · subst hu
      rw [escape_unit, unitEscape] at h
      obtain ⟨high, middle, hhigh, h⟩ := bind_ok_iff.mp h
      have hpass := skipEscape_unit hhigh
      have hshorter := length_of_unit hhigh
      split at h
      next => cases h
      next =>
      split at h
      next =>
        cases h
        refine ⟨by simpa using Nat.lt_succ_of_le hshorter, fun fuel hfuel => ?_⟩
        refine ⟨fuel, ?_, skipString_escape hpass fuel⟩
        simp only [List.length_cons] at hfuel
        omega
      next =>
        obtain ⟨_, second, hslash, hpair⟩ := bind_ok_iff.mp h
        obtain ⟨_, third, hletter, hpair⟩ := bind_ok_iff.mp hpair
        obtain ⟨low, last, hlow, hend⟩ := bind_ok_iff.mp hpair
        obtain rfl := secondEscape_ok hslash
        obtain rfl := secondEscape_ok hletter
        have hlast := length_of_unit hlow
        split at hend
        next => cases hend
        next =>
          obtain rfl := eq_of_pure_ok hend
          simp only [List.length_cons] at hshorter ⊢
          refine ⟨by omega, fun fuel hfuel => ?_⟩
          obtain ⟨fuel, rfl⟩ := Nat.exists_eq_succ_of_ne_zero (Nat.ne_zero_of_lt hfuel)
          refine ⟨fuel, by omega, ?_⟩
          exact (skipString_escape hpass _).trans (skipString_escape (skipEscape_unit hlow) fuel)
    · cases hshort : shortEscape? letter with
      | none =>
          rw [escape, bind_of_ok (peek?_cons _ _)] at h
          simp only [hshort] at h
          cases h
      | some plain =>
          cases (shortEscape_reads hu hshort text).symm.trans h
          refine ⟨by simp, fun fuel hfuel => ⟨fuel, by simp at hfuel; omega, ?_⟩⟩
          refine skipString_escape ?_ fuel
          rw [skipEscape, bind_of_ok (peek?_cons _ _)]
          simp only [hshort, Option.isSome_some, if_true]
          rfl
  · cases h

/-- A symbol that stands for itself in a string is read and passed over. -/
theorem string_plain {s : Symbol} (hquote : s ≠ .char '"') (hslash : s ≠ .char '\\')
    (fuel : Nat) (text : List Symbol) :
    stringSymbols (fuel + 1) (s :: text) =
      (if s.isControl then failHere .controlCharacter
        else (s :: ·) <$> stringSymbols fuel : Reader (List Symbol)) text ∧
    (s.isControl = false → skipString (fuel + 1) (s :: text) = skipString fuel text) := by
  constructor
  · rw [stringSymbols, bind_of_ok (peek?_cons _ _)]
    simp only []
    rw [bind_of_ok (skip_cons _ _)]
  · intro hcontrol
    rw [skipString, bind_of_ok (peek?_cons _ _)]
    simp only [hcontrol, Bool.false_eq_true, if_false]
    rw [bind_of_ok (skip_cons _ _)]

/-- The symbols of a string are passed over up to the quote that ends them, and the quote too. -/
theorem skipString_of_symbols {fuel : Nat} : ∀ {text symbols rest},
    stringSymbols fuel text = .ok (symbols, rest) →
      ∃ tail, rest = .char '"' :: tail ∧
        ∀ left, text.length < left → skipString left text = .ok ((), tail) := by
  induction fuel with
  | zero => intro text symbols rest h; cases h
  | succ fuel ih =>
      intro text symbols rest h
      rcases text with _ | ⟨s, text⟩
      · cases h
      · by_cases hquote : s = .char '"'
        · subst hquote
          cases h
          refine ⟨text, rfl, fun left hleft => ?_⟩
          obtain ⟨left, rfl⟩ := Nat.exists_eq_succ_of_ne_zero (Nat.ne_zero_of_lt hleft)
          rfl
        by_cases hslash : s = .char '\\'
        · subst hslash
          rw [stringSymbols_backslash] at h
          obtain ⟨c, middle, hescape, hmore⟩ := bind_ok_iff.mp h
          obtain ⟨symbols, hsymbols, -⟩ := map_ok_iff.mp hmore
          obtain ⟨tail, rfl, hpass⟩ := ih hsymbols
          refine ⟨tail, rfl, fun left hleft => ?_⟩
          obtain ⟨left, rfl⟩ := Nat.exists_eq_succ_of_ne_zero (Nat.ne_zero_of_lt hleft)
          obtain ⟨-, hover⟩ := skipString_of_escape hescape
          obtain ⟨left', hleft', hskip⟩ := hover left (by simpa using hleft)
          rw [hskip, hpass left' hleft']
        · obtain ⟨hread, hpass⟩ := string_plain hquote hslash fuel text
          rw [hread] at h
          split at h
          next => cases h
          next hcontrol =>
            obtain ⟨symbols, hsymbols, -⟩ := map_ok_iff.mp h
            obtain ⟨tail, rfl, hover⟩ := ih hsymbols
            refine ⟨tail, rfl, fun left hleft => ?_⟩
            obtain ⟨left, rfl⟩ := Nat.exists_eq_succ_of_ne_zero (Nat.ne_zero_of_lt hleft)
            rw [(string_plain hquote hslash left text).2 (by simpa using hcontrol)]
            exact hover left (by simpa using hleft)

theorem string_passes :
    Passes (do skip; skipString ((← remaining) + 1)) string := by
  intro text a rest h
  rw [string, bind_of_ok (skip_apply text),
    bind_of_ok (x := remaining) rfl] at h
  obtain ⟨symbols, middle, hsymbols, hend⟩ := bind_ok_iff.mp h
  obtain ⟨tail, rfl, hover⟩ := skipString_of_symbols hsymbols
  rw [bind_of_ok (skip_apply text), bind_of_ok (x := remaining) rfl,
    hover _ (Nat.lt_succ_self _)]
  revert hend
  generalize (symbols.mapM _ : Option (List Char)) = cs?
  cases cs? with
  | none =>
      intro hend
      cases hend
  | some cs =>
      intro hend
      cases hend
      rfl

/-! ## Numbers -/

theorem leaves_digits {P : α → List Symbol → Prop} {text : List Symbol}
    {next : List Symbol → Reader α}
    (h : Leaves (next (text.takeWhile Symbol.isDigit)) (text.dropWhile Symbol.isDigit) P) :
    Leaves (digits >>= next) text P := by
  refine Leaves.bind ?_
  rintro _ _ ⟨⟩
  exact h

theorem leaves_scaled {P : Number → List Symbol → Prop} {text : List Symbol} {negative : Bool}
    {significand : Nat} {exponent : Int} (h : ∀ n, P n text) :
    Leaves (scaled negative significand exponent) text P := by
  unfold scaled
  split
  next => exact leaves_pure (h _)
  next => exact leaves_failHere _

/-- Digits are passed over if there are any. -/
theorem skipDigits_apply {s : Symbol} {text : List Symbol} (hs : s.isDigit = true)
    (next : Reader Unit) :
    (do
      if (← digits).isEmpty then failNext .numberMalformed
      next : Reader Unit) (s :: text) = next (text.dropWhile Symbol.isDigit) := by
  rw [bind_of_ok (x := digits) rfl, List.takeWhile_cons_of_pos hs, List.dropWhile_cons_of_pos hs]
  rfl

theorem skipExponent_unsigned {s : Symbol} {text : List Symbol} (hs : s.isDigit = true) :
    skipExponent (s :: text) = .ok ((), text.dropWhile Symbol.isDigit) := by
  rw [skipExponent, bind_of_ok (peek?_cons _ _)]
  have hplus : s ≠ .char '+' := by rintro rfl; cases hs
  have hminus : s ≠ .char '-' := by rintro rfl; cases hs
  simp only [Option.some.injEq, hplus, hminus, imp_self]
  exact skipDigits_apply hs (pure ())

/-- What stands behind the mark of an exponent. -/
theorem leaves_withExponent {negative : Bool} {significand : Nat} {start : Int}
    {text : List Symbol} : Leaves (withExponent negative significand start) text
      fun _ rest => skipExponent text.tail = .ok ((), rest) := by
  unfold withExponent
  refine leaves_skip (leaves_peek ?_)
  extract_lets afterSign
  have hafterSign : ∀ below unsigned,
      (∀ s tail, unsigned = s :: tail → s.isDigit = true →
        skipExponent text.tail = .ok ((), tail.dropWhile Symbol.isDigit)) →
      Leaves (afterSign below) unsigned fun _ rest => skipExponent text.tail = .ok ((), rest) := by
    intro below unsigned hpass
    refine leaves_peek ?_
    extract_lets afterDigit
    split
    next => exact Leaves.bind fun _ _ h => nomatch h
    next s hhead =>
    split
    next => exact Leaves.bind fun _ _ h => nomatch h
    next hdigit =>
      obtain ⟨tail, rfl⟩ := List.head?_eq_some_iff.mp hhead
      have hs : s.isDigit = true := by simpa using hdigit
      have hover := hpass s tail rfl hs
      refine leaves_digits ?_
      rw [List.dropWhile_cons_of_pos hs]
      split
      next => exact leaves_scaled fun _ => hover
      next =>
      split
      next => rintro n rest ⟨⟩
      next => exact leaves_pure hover
  split
  next hsign =>
    obtain ⟨tail, htail⟩ := List.head?_eq_some_iff.mp hsign
    refine leaves_skip (hafterSign false _ fun s rest hrest hs => ?_)
    rw [htail] at hrest ⊢
    obtain rfl : tail = s :: rest := hrest
    exact skipDigits_apply hs (pure ())
  next hsign =>
    obtain ⟨tail, htail⟩ := List.head?_eq_some_iff.mp hsign
    refine leaves_skip (hafterSign true _ fun s rest hrest hs => ?_)
    rw [htail] at hrest ⊢
    obtain rfl : tail = s :: rest := hrest
    exact skipDigits_apply hs (pure ())
  next hplus hminus =>
    refine hafterSign false _ fun s rest hrest hs => ?_
    rw [hrest]
    exact skipExponent_unsigned hs

theorem skipOptionalExponent_plain {text : List Symbol} (hlower : text.head? ≠ some (.char 'e'))
    (hupper : text.head? ≠ some (.char 'E')) : skipOptionalExponent text = .ok ((), text) := by
  rw [skipOptionalExponent, bind_of_ok (peek?_apply _)]
  simp only []
  rfl

/-- An exponent whose mark is next. -/
theorem leaves_marked {negative : Bool} {significand : Nat} {start : Int} {text : List Symbol}
    (hmark : text.head? = some (.char 'e') ∨ text.head? = some (.char 'E')) :
    Leaves (withExponent negative significand start) text
      fun _ rest => skipOptionalExponent text = .ok ((), rest) := by
  intro n rest hread
  have hover := leaves_withExponent n rest hread
  rcases hmark with hmark | hmark
  · obtain ⟨tail, rfl⟩ := List.head?_eq_some_iff.mp hmark
    exact hover
  · obtain ⟨tail, rfl⟩ := List.head?_eq_some_iff.mp hmark
    exact hover

theorem leaves_optionalExponent {negative : Bool} {significand : Nat} {start : Int}
    {text : List Symbol} : Leaves (optionalExponent negative significand start) text
      fun _ rest => skipOptionalExponent text = .ok ((), rest) := by
  refine leaves_peek ?_
  split
  next hlower => exact leaves_marked (.inl hlower)
  next hupper => exact leaves_marked (.inr hupper)
  next hlower hupper => exact leaves_scaled fun _ => skipOptionalExponent_plain hlower hupper

/-- What stands behind a point. -/
def skipFraction : Reader Unit := do
  if (← digits).isEmpty then failNext .numberMalformed
  skipOptionalExponent

theorem leaves_withFraction {negative : Bool} {significand : Nat} {start : Int}
    {text : List Symbol} : Leaves (withFraction negative significand start) text
      fun _ rest => skipFraction text.tail = .ok ((), rest) := by
  unfold withFraction
  refine leaves_skip (leaves_digits ?_)
  split
  next whole unread habsorb =>
  extract_lets afterDigits
  split
  next =>
    refine leaves_peek ?_
    split
    next => exact Leaves.bind fun _ _ h => nomatch h
    next => exact Leaves.bind fun _ _ h => nomatch h
  next hdigits =>
    intro n rest hread
    have hover := leaves_optionalExponent n rest hread
    rw [skipFraction, bind_of_ok (x := digits) rfl, if_neg hdigits]
    exact hover

/-- What stands behind the whole part of a number. -/
def skipTail : Reader Unit := do
  match ← peek? with
  | some (.char '.') => skip; skipFraction
  | _ => skipOptionalExponent

theorem skipTail_plain {text : List Symbol} (hpoint : text.head? ≠ some (.char '.')) :
    skipTail text = skipOptionalExponent text := by
  rw [skipTail, bind_of_ok (peek?_apply _)]
  simp only []

theorem skipNumber_zero {text : List Symbol}
    (h : (text.head?.map Symbol.isDigit).getD false = false) :
    skipNumber (.char '0' :: text) = skipTail text := by
  rw [skipNumber, bind_of_ok (peek?_cons _ _)]
  refine (bind_of_ok (skip_cons _ _)).trans ((bind_of_ok (peek?_apply _)).trans ?_)
  rw [h]
  rfl

theorem skipNumber_digits {s : Symbol} {text : List Symbol} (hs : s.isDigit = true)
    (hzero : s ≠ .char '0') :
    skipNumber (s :: text) = skipTail (text.dropWhile Symbol.isDigit) := by
  rw [skipNumber, bind_of_ok (peek?_cons _ _)]
  simp only [Option.some.injEq, hzero, imp_self]
  exact skipDigits_apply hs skipTail

theorem leaves_number {negative : Bool} {text : List Symbol} : Leaves (number negative) text
      fun _ rest => skipNumber text = .ok ((), rest) := by
  unfold number
  refine leaves_peek ?_
  extract_lets afterSign
  split
  next => exact Leaves.bind fun _ _ h => nomatch h
  next s hhead =>
  split
  next => exact Leaves.bind fun _ _ h => nomatch h
  next hdigit =>
    obtain ⟨tail, rfl⟩ := List.head?_eq_some_iff.mp hhead
    have hs : s.isDigit = true := by simpa using hdigit
    refine Leaves.bind fun ds middle hds => ?_
    change Leaves _ _ _
    extract_lets afterDigits
    have hafterDigits : skipNumber (s :: tail) = skipTail middle → Leaves (afterDigits ()) middle
        fun _ rest => skipNumber (s :: tail) = .ok ((), rest) := by
      intro hnumber
      rw [hnumber]
      refine leaves_peek ?_
      split
      next hpoint =>
        obtain ⟨fraction, rfl⟩ := List.head?_eq_some_iff.mp hpoint
        exact leaves_withFraction
      next hlower =>
        rw [skipTail_plain (by simp [hlower])]
        exact leaves_marked (.inl hlower)
      next hupper =>
        rw [skipTail_plain (by simp [hupper])]
        exact leaves_marked (.inr hupper)
      next hpoint hlower hupper =>
        have hplain := skipTail_plain hpoint
        rw [skipOptionalExponent_plain hlower hupper] at hplain
        split
        next => exact leaves_pure hplain
        next => exact leaves_scaled fun _ => hplain
    by_cases hzero : s = .char '0'
    · subst hzero
      cases hds
      split
      next =>
        refine leaves_peek ?_
        split
        next => exact Leaves.bind fun _ _ h => nomatch h
        next hnext => exact hafterDigits (skipNumber_zero (by simpa using hnext))
      next hother => exact absurd rfl hother
    · rw [if_neg (by simpa using hzero)] at hds
      cases hds
      rw [if_neg (by simp [List.takeWhile_cons_of_pos hs, hzero])]
      refine hafterDigits ?_
      rw [skipNumber_digits hs hzero, List.dropWhile_cons_of_pos hs]

/-! ## What is passed over is taken away -/

/-- What is left is no longer than what there was. -/
def Shrinks (read : Reader α) : Prop :=
  ∀ text, Leaves read text fun _ rest => rest.length ≤ text.length

theorem Shrinks.bind {read : Reader α} {next : α → Reader β} (hread : Shrinks read)
    (hnext : ∀ a, Shrinks (next a)) : Shrinks (read >>= next) := by
  intro text
  refine Leaves.bind fun a middle hmiddle b rest hrest => ?_
  exact Nat.le_trans (hnext a middle b rest hrest) (hread text a middle hmiddle)

theorem shrinks_pure (a : α) : Shrinks (pure a) := fun _ => leaves_pure (Nat.le_refl _)

theorem shrinks_failHere (cause : Cause) : Shrinks (failHere cause : Reader α) :=
  fun _ => leaves_failHere cause

theorem shrinks_failNext (cause : Cause) : Shrinks (failNext cause : Reader α) :=
  fun _ => leaves_failNext cause

theorem shrinks_peek : Shrinks peek? := by
  rintro text _ _ ⟨⟩
  exact Nat.le_refl _

theorem shrinks_skip : Shrinks skip := by
  rintro text _ _ ⟨⟩
  simp

theorem shrinks_digits : Shrinks digits := by
  rintro text _ _ ⟨⟩
  exact (List.dropWhile_sublist _).length_le

theorem shrinks_word (cs : List Char) : Shrinks (word cs) := by
  induction cs with
  | nil => exact shrinks_pure ()
  | cons c cs ih =>
      refine shrinks_peek.bind fun s? => ?_
      split
      next => exact shrinks_failHere _
      next =>
        split
        next => exact shrinks_skip.bind fun _ => ih
        next => exact shrinks_failNext _

theorem shrinks_skipDigits {next : Reader Unit} (h : Shrinks next) :
    Shrinks (do
      if (← digits).isEmpty then failNext .numberMalformed
      next) := by
  refine shrinks_digits.bind fun ds => ?_
  split
  next => exact (shrinks_failNext _).bind fun _ => h
  next => exact h

theorem shrinks_skipOptionalExponent : Shrinks skipOptionalExponent := by
  have hexponent : Shrinks skipExponent := by
    have hdigits := shrinks_skipDigits (shrinks_pure ())
    refine shrinks_peek.bind fun s? => ?_
    split
    next => exact shrinks_skip.bind fun _ => hdigits
    next => exact shrinks_skip.bind fun _ => hdigits
    next => exact hdigits
  refine shrinks_peek.bind fun s? => ?_
  split
  next => exact shrinks_skip.bind fun _ => hexponent
  next => exact shrinks_skip.bind fun _ => hexponent
  next => exact shrinks_pure ()

theorem shrinks_skipTail : Shrinks skipTail := by
  refine shrinks_peek.bind fun s? => ?_
  split
  next => exact shrinks_skip.bind fun _ => shrinks_skipDigits shrinks_skipOptionalExponent
  next => exact shrinks_skipOptionalExponent

theorem shrinks_skipNumber : Shrinks skipNumber := by
  refine shrinks_peek.bind fun s? => ?_
  extract_lets _ afterWhole
  have hafterWhole : ∀ u, Shrinks (afterWhole u) := fun _ => shrinks_skipTail
  split
  next =>
    refine shrinks_skip.bind fun _ => shrinks_peek.bind fun _ => ?_
    split
    next => exact (shrinks_failNext _).bind hafterWhole
    next => exact hafterWhole ()
  next =>
    refine shrinks_digits.bind fun ds => ?_
    split
    next => exact (shrinks_failNext _).bind hafterWhole
    next => exact hafterWhole ()

/-- A number has a digit at least. -/
theorem length_of_skipNumber {s : Symbol} {text rest : List Symbol} (hs : s.isDigit = true)
    (h : skipNumber (s :: text) = .ok ((), rest)) : rest.length ≤ text.length := by
  by_cases hzero : s = .char '0'
  · subst hzero
    have hzero : Leaves skipNumber (.char '0' :: text) fun _ rest => rest.length ≤ text.length := by
      refine leaves_peek (leaves_skip (leaves_peek ?_))
      split
      next => exact Leaves.bind fun _ _ h => nomatch h
      next => exact shrinks_skipTail text
    exact hzero () rest h
  · rw [skipNumber_digits hs hzero] at h
    exact Nat.le_trans (shrinks_skipTail _ _ _ h) (List.dropWhile_sublist _).length_le

theorem shrinks_unit : Shrinks unit := fun _ _ _ h => length_of_unit h

theorem shrinks_skipEscape : Shrinks skipEscape := by
  refine shrinks_peek.bind fun s? => ?_
  split
  next => exact shrinks_failHere _
  next => exact shrinks_skip.bind fun _ => shrinks_unit.bind fun _ => shrinks_pure ()
  next =>
    split
    next => exact shrinks_skip
    next => exact shrinks_failNext _
  next => exact shrinks_failNext _

theorem shrinks_skipString (fuel : Nat) : Shrinks (skipString fuel) := by
  induction fuel with
  | zero => exact shrinks_failHere _
  | succ fuel ih =>
      refine shrinks_peek.bind fun s? => ?_
      split
      next => exact shrinks_failHere _
      next => exact shrinks_skip
      next => exact shrinks_skip.bind fun _ => shrinks_skipEscape.bind fun _ => ih
      next =>
        split
        next => exact shrinks_failHere _
        next => exact shrinks_skip.bind fun _ => ih

/-! ## Scalars -/

theorem skipStart_of_scalar {s : Symbol} {read : Reader Json} {text tail rest : List Symbol}
    {j : Json} (hsolid : text.dropWhile isSpace = s :: tail) (hscalar : scalar? s = some read)
    (hread : read (s :: tail) = .ok (j, rest)) :
    skipStart text = .ok (none, rest) ∧ rest.length ≤ tail.length := by
  rw [skipStart, bind_of_ok (peekSolid?_apply hsolid)]
  have hword : ∀ cs b, read = (do skip; word cs; pure b) →
      (do skip; word cs; pure none : Reader (Option Frame)) (s :: tail) = .ok (none, rest) ∧
        rest.length ≤ tail.length := by
    rintro cs b rfl
    rw [bind_of_ok (skip_cons _ _)] at hread ⊢
    obtain ⟨_, middle, hcs, hend⟩ := bind_ok_iff.mp hread
    obtain rfl := eq_of_pure_ok hend
    exact ⟨bind_of_ok hcs, shrinks_word _ _ _ _ hcs⟩
  unfold scalar? at hscalar
  split at hscalar
  next =>
    cases hscalar
    exact hword _ _ rfl
  next =>
    cases hscalar
    exact hword _ _ rfl
  next =>
    cases hscalar
    exact hword _ _ rfl
  next =>
    cases hscalar
    obtain ⟨text, hstring, -⟩ := map_ok_iff.mp hread
    have hover := string_passes _ _ _ hstring
    rw [bind_of_ok (skip_cons _ _), bind_of_ok (x := remaining) rfl] at hover
    refine ⟨?_, shrinks_skipString _ _ _ _ hover⟩
    refine (bind_of_ok (skip_cons _ _)).trans ?_
    exact (bind_of_ok (x := remaining) rfl).trans (bind_of_ok hover)
  next =>
    cases hscalar
    obtain ⟨n, hnumber, -⟩ := map_ok_iff.mp hread
    have hover : skipNumber tail = .ok ((), rest) := leaves_number n rest hnumber
    exact ⟨(bind_of_ok (skip_cons _ _)).trans (bind_of_ok hover), shrinks_skipNumber _ _ _ hover⟩
  next =>
    split at hscalar
    next hdigit =>
      cases hscalar
      obtain ⟨n, hnumber, -⟩ := map_ok_iff.mp hread
      have hother : ∀ c : Char, c.isDigit = false → s ≠ .char c := by
        rintro c hc rfl
        exact absurd hdigit (by simp [Symbol.isDigit, hc])
      have hminus := hother '-' (by decide)
      have hlist := hother '[' (by decide)
      have hobject := hother '\x7b' (by decide)
      rw [signedNumber, bind_of_ok (peek?_cons _ _)] at hnumber
      simp only [Option.some.injEq, hminus, imp_self] at hnumber
      have hover := leaves_number n rest hnumber
      refine ⟨?_, length_of_skipNumber hdigit hover⟩
      simp only [hdigit, if_true]
      exact bind_of_ok hover
    next => cases hscalar

end WalletEngine.Json.Reader
