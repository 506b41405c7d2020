import WalletEngine.Json.Printer
import WalletEngine.Proofs.Json.Reading

/-! # Scalars in a text

What is written for `null`, a truth value or a string is read back as that value, whatever the
characters of the string.
-/

namespace WalletEngine.Json

namespace Reader
open Steps

variable {α : Type}

/-- The text is that of a scalar: the reader that its first character selects takes it. -/
def Spells (text : List Char) (j : Json) : Prop :=
  ∃ c cs read, text = c :: cs ∧ isSpace (.char c) = false ∧ scalar? (.char c) = some read ∧
    ∀ rest, Stops rest → read (text.map .char ++ rest) = .ok (j, rest)

/-! ## Words -/

theorem word_apply (cs : List Char) (rest : List Symbol) :
    word cs (cs.map .char ++ rest) = .ok ((), rest) := by
  induction cs with
  | nil => rfl
  | cons c cs ih =>
      rw [word, List.map_cons, List.cons_append, bind_of_ok (peek?_cons _ _)]
      simp only [if_pos]
      rw [bind_of_ok (skip_cons _ _), ih]

theorem spells_null : Spells ['n', 'u', 'l', 'l'] .null := by
  refine ⟨'n', _, _, rfl, by decide, rfl, ?_⟩
  intro rest _
  rw [List.map_cons, List.cons_append, bind_of_ok (skip_cons _ _),
    bind_of_ok (word_apply ['u', 'l', 'l'] rest), pure_apply]

theorem spells_bool (b : Bool) : Spells (boolChars b) (.bool b) := by
  cases b with
  | false =>
      refine ⟨'f', _, _, rfl, by decide, rfl, ?_⟩
      intro rest _
      rw [boolChars, if_neg (by decide), List.map_cons, List.cons_append,
        bind_of_ok (skip_cons _ _), bind_of_ok (word_apply ['a', 'l', 's', 'e'] rest), pure_apply]
  | true =>
      refine ⟨'t', _, _, rfl, by decide, rfl, ?_⟩
      intro rest _
      rw [boolChars, if_pos rfl, List.map_cons, List.cons_append,
        bind_of_ok (skip_cons _ _), bind_of_ok (word_apply ['r', 'u', 'e'] rest), pure_apply]

/-! ## Strings -/

theorem shortEscape_reads {plain letter : Char} (hu : letter ≠ 'u')
    (hshort : shortEscape? letter = some plain) (rest : List Symbol) :
    escape (.char letter :: rest) = .ok (plain, rest) := by
  rw [escape, bind_of_ok (peek?_cons _ _)]
  simp only [hshort]
  rw [bind_of_ok (skip_cons _ _), pure_apply]

theorem le_foldl_totalSize (text : List Symbol) (n : Nat) :
    n ≤ text.foldl (fun n s => n + s.size) n := by
  induction text generalizing n with
  | nil => exact Nat.le_refl n
  | cons s text ih => exact Nat.le_trans (Nat.le_add_right n s.size) (ih _)

theorem one_le_size (s : Symbol) : 1 ≤ s.size := by
  cases s with
  | char c => exact c.utf8Size_pos
  | stray b => exact Nat.le_refl 1

theorem four_le_totalSize (a b c d : Symbol) (rest : List Symbol) :
    4 ≤ Symbol.totalSize (a :: b :: c :: d :: rest) := by
  have hrest := le_foldl_totalSize rest (0 + a.size + b.size + c.size + d.size)
  have ha := one_le_size a
  have hb := one_le_size b
  have hc := one_le_size c
  have hd := one_le_size d
  simp only [Symbol.totalSize, List.foldl_cons]
  omega

/-- The unit escape of a control character has two zeros and two more digits. -/
theorem unit_control {n : Nat} (hn : n < 32) (rest : List Symbol) :
    unit ((['0', '0'] ++ (Text.hexDigits (n / 16) ++ Text.hexDigits (n % 16))).map .char ++ rest) =
      .ok (n, rest) := by
  have hhigh : Text.hexDigits (n / 16) = [(n / 16).digitChar] :=
    Nat.toDigits_of_lt_base (by omega)
  have hlow : Text.hexDigits (n % 16) = [(n % 16).digitChar] :=
    Nat.toDigits_of_lt_base (by omega)
  have hvalues : ∀ n : Fin 32,
      ([.char '0', .char '0', .char (n.val / 16).digitChar, .char (n.val % 16).digitChar].mapM
        hexValue?).map (fun values => values.foldl (fun n v => 16 * n + v) 0) = some n.val := by
    decide
  have hvalue := hvalues ⟨n, hn⟩
  obtain ⟨values, hmap, hfold⟩ := Option.map_eq_some_iff.mp hvalue
  rw [hhigh, hlow]
  simp only [List.cons_append, List.nil_append, List.map_cons, List.map_nil]
  rw [unit, if_neg (Nat.not_lt.mpr (four_le_totalSize _ _ _ _ _))]
  simp only [List.take_succ_cons, List.take_zero, List.drop_succ_cons, List.drop_zero]
  rw [hmap]
  simp only [hfold]

theorem unitEscape_control {c : Char} (hc : c.toNat < 32) (rest : List Symbol) :
    unitEscape ((['0', '0'] ++ (Text.hexDigits (c.toNat / 16) ++
      Text.hexDigits (c.toNat % 16))).map .char ++ rest) = .ok (c, rest) := by
  rw [unitEscape, bind_of_ok (unit_control hc rest)]
  have hlow : ¬(0xdc00 ≤ c.toNat ∧ c.toNat ≤ 0xdfff) := by omega
  have hplain : c.toNat < 0xd800 ∨ 0xdbff < c.toNat := by omega
  simp only [Bool.and_eq_true, decide_eq_true_eq, hlow, if_false, Bool.or_eq_true, hplain, if_true]
  rw [pure_apply, Char.ofNat_toNat]

theorem escape_unit (text : List Symbol) : escape (.char 'u' :: text) = unitEscape text := rfl

theorem stringSymbols_backslash (fuel : Nat) (text : List Symbol) :
    stringSymbols (fuel + 1) (.char '\\' :: text) =
      (escape >>= fun c => (.char c :: ·) <$> stringSymbols fuel) text := rfl

theorem stringSymbols_plain {c : Char} (hquote : c ≠ '"') (hslash : c ≠ '\\')
    (hcontrol : ¬c.toNat < 0x20) (fuel : Nat) (text : List Symbol) :
    stringSymbols (fuel + 1) (.char c :: text) =
      ((.char c :: ·) <$> stringSymbols fuel) text := by
  have hplain : Symbol.isControl (.char c) = false := by simpa [Symbol.isControl] using hcontrol
  rw [stringSymbols, bind_of_ok (peek?_cons _ _)]
  simp only [Char.isValue, Symbol.char.injEq, hquote, imp_self, hslash, hplain,
    Bool.false_eq_true, if_false]
  rw [bind_of_ok (skip_cons _ _)]

/-- What is written for one character of a string is read as that character. -/
theorem stringSymbols_escapeChar (c : Char) (fuel : Nat) (text : List Symbol) :
    stringSymbols (fuel + 1) ((escapeChar c).map .char ++ text) =
      ((.char c :: ·) <$> stringSymbols fuel) text := by
  have hshort : ∀ letter, letter ≠ 'u' → shortEscape? letter = some c →
      stringSymbols (fuel + 1) (.char '\\' :: .char letter :: text) =
        ((.char c :: ·) <$> stringSymbols fuel) text := by
    intro letter hu hletter
    rw [stringSymbols_backslash, bind_of_ok (shortEscape_reads hu hletter text)]
  unfold escapeChar
  split
  next hquote =>
    rcases (by simpa using hquote : c = '"' ∨ c = '\\') with rfl | rfl
    · exact hshort '"' (by decide) rfl
    · exact hshort '\\' (by decide) rfl
  next hquote =>
  split
  next hc => subst hc; exact hshort 'b' (by decide) rfl
  split
  next hc => subst hc; exact hshort 'f' (by decide) rfl
  split
  next hc => subst hc; exact hshort 'n' (by decide) rfl
  split
  next hc => subst hc; exact hshort 'r' (by decide) rfl
  split
  next hc => subst hc; exact hshort 't' (by decide) rfl
  split
  next hcontrol =>
    have hunit := unitEscape_control hcontrol text
    rw [← escape_unit] at hunit
    exact (stringSymbols_backslash _ _).trans (bind_of_ok hunit)
  next hcontrol =>
    obtain ⟨hq, hs⟩ : c ≠ '"' ∧ c ≠ '\\' := by simpa using hquote
    exact stringSymbols_plain hq hs hcontrol fuel text

theorem stringSymbols_escaped (cs : List Char) (rest : List Symbol) {fuel : Nat}
    (hfuel : cs.length < fuel) :
    stringSymbols fuel ((cs.flatMap escapeChar).map .char ++ .char '"' :: rest) =
      .ok (cs.map .char, .char '"' :: rest) := by
  induction cs generalizing fuel with
  | nil =>
      obtain ⟨fuel, rfl⟩ := Nat.exists_eq_succ_of_ne_zero (Nat.ne_of_gt hfuel)
      rfl
  | cons c cs ih =>
      obtain ⟨fuel, rfl⟩ := Nat.exists_eq_succ_of_ne_zero (Nat.ne_of_gt (Nat.lt_of_le_of_lt
        (Nat.zero_le _) hfuel))
      rw [List.flatMap_cons, List.map_append, List.append_assoc, stringSymbols_escapeChar,
        map_apply, ih (by simpa using hfuel)]
      rfl

theorem one_le_length_escapeChar (c : Char) : 1 ≤ (escapeChar c).length := by
  unfold escapeChar
  repeat' split
  all_goals simp

theorem length_le_escaped (cs : List Char) : cs.length ≤ (cs.flatMap escapeChar).length := by
  induction cs with
  | nil => simp
  | cons c cs ih =>
      have hc := one_le_length_escapeChar c
      simp only [List.flatMap_cons, List.length_append, List.length_cons]
      omega

theorem mapM_char {f : Symbol → Option Char} (hf : ∀ c, f (.char c) = some c)
    (cs : List Char) : (cs.map Symbol.char).mapM f = some cs := by
  induction cs with
  | nil => rfl
  | cons c cs ih => simp [hf, ih]

/-- A string is read back from its text. -/
theorem string_stringChars (s : String) (rest : List Symbol) :
    string ((stringChars s).map .char ++ rest) = .ok (s, rest) := by
  have hlength := length_le_escaped s.toList
  rw [stringChars, List.cons_append, List.map_cons, List.cons_append, string,
    bind_of_ok (skip_cons _ _), bind_of_ok (x := remaining) rfl, List.map_append,
    List.append_assoc, List.map_cons, List.map_nil, List.cons_append, List.nil_append,
    bind_of_ok (stringSymbols_escaped s.toList rest ?_)]
  · rw [mapM_char (fun _ => rfl)]
    change (skip >>= fun _ => pure (String.ofList s.toList)) _ = _
    rw [bind_of_ok (skip_cons _ _), pure_apply, String.ofList_toList]
  · simp only [List.length_append, List.length_map, List.length_cons]
    omega

theorem spells_string (s : String) : Spells (stringChars s) (.string s) := by
  refine ⟨'"', _, _, rfl, by decide, rfl, ?_⟩
  intro rest _
  rw [map_apply, string_stringChars]

end Reader

end WalletEngine.Json
