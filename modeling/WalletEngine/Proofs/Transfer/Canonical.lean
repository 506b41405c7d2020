import WalletEngine.Keyring.Derivation
import WalletEngine.Proofs.Decimal.Literals
import WalletEngine.Proofs.Json.Scalars
import WalletEngine.Transfer.Basic

/-! # What is signed tells the transfer

The signed bytes of a transfer are the text of its body. A string ends at the first quote that is not
escaped and a number at the comma behind it, so the text falls into the members of the body in one way
only, and each member is told by its part.
-/

namespace WalletEngine

namespace Json

open Reader

/-! ## Members in a text -/

theorem membersChars_eq (members : List (String × Json)) :
    membersChars members = members.map fun m => stringChars m.1 ++ ':' :: m.2.chars := by
  induction members with
  | nil => rfl
  | cons m rest ih => rw [membersChars, ih, List.map_cons]

/-- A string is told by its text, whatever stands behind it. -/
theorem stringChars_append_inj {a b : String} {r s : List Char}
    (h : stringChars a ++ r = stringChars b ++ s) : a = b ∧ r = s := by
  have hread := congrArg (fun text => Reader.string (text.map Symbol.char)) h
  simp only [List.map_append, string_stringChars, Except.ok.injEq, Prod.mk.injEq] at hread
  exact ⟨hread.1, (List.map_inj_right fun _ _ => Symbol.char.inj).mp hread.2⟩

/-- The text of an integer: its sign and its digits. -/
theorem toList_toString (n : Int) :
    (toString n).toList = (if n < 0 then ['-'] else []) ++ Nat.toDigits 10 n.natAbs := by
  rw [Int.toString_eq_repr]
  cases n with
  | ofNat m =>
      rw [if_neg (by simp)]
      exact Nat.toList_repr
  | negSucc m =>
      rw [if_pos (Int.negSucc_lt_zero m), Int.repr, String.toList_append, Nat.toList_repr]
      rfl

theorem numberChars_integer_inj {a b : Int}
    (h : numberChars (.integer a) = numberChars (.integer b)) : a = b := by
  rw [numberChars, numberChars, String.toList_inj, Int.toString_eq_repr, Int.toString_eq_repr] at h
  exact Int.repr_inj.mp h

/-- A part without a comma is told by what stands before the first comma. -/
theorem append_comma_inj {a b r s : List Char} (ha : ',' ∉ a) (hb : ',' ∉ b)
    (h : a ++ ',' :: r = b ++ ',' :: s) : a = b ∧ r = s := by
  induction a generalizing b with
  | nil =>
      cases b with
      | nil => exact ⟨rfl, (List.cons.inj h).2⟩
      | cons c b => exact absurd ((List.cons.inj h).1 ▸ List.mem_cons_self) hb
  | cons c a ih =>
      cases b with
      | nil => exact absurd ((List.cons.inj h).1 ▸ List.mem_cons_self) ha
      | cons d b =>
          obtain ⟨rfl, hrest⟩ := List.cons.inj h
          obtain ⟨rfl, hsame⟩ := ih (List.not_mem_of_not_mem_cons ha)
            (List.not_mem_of_not_mem_cons hb) hrest
          exact ⟨rfl, hsame⟩

theorem comma_notMem_integer (n : Int) : ',' ∉ numberChars (.integer n) := by
  rw [numberChars, toList_toString, List.mem_append, not_or]
  constructor
  · split <;> decide
  · exact fun hmem => absurd ((isWhole_toDigits _).digits _ hmem) (by decide)

theorem comma_notMem_float {x : Binary64} (h : x.isFinite = true) :
    ',' ∉ numberChars (.float x) := by
  rw [numberChars, if_pos h]
  intro hmem
  rcases Binary64.mem_text h hmem with hdigit | hsign
  · exact absurd hdigit (by decide)
  · exact absurd hsign (by decide)

theorem numberChars_float_inj {x y : Binary64} (hx : x.isFinite = true) (hy : y.isFinite = true)
    (h : numberChars (.float x) = numberChars (.float y)) : x = y := by
  rw [numberChars, numberChars, if_pos hx, if_pos hy, String.toList_inj] at h
  exact Binary64.eq_of_text_eq hx hy h

end Json

theorem Bytes.ofText_injective {s t : String} (h : Bytes.ofText s = Bytes.ofText t) : s = t := by
  have hread := congrArg Utf8.decode? h
  rw [Utf8.decode?_ofText, Utf8.decode?_ofText] at hread
  exact Option.some.inj hread

namespace Transfer
open Json

/-! ## The text of a body -/

theorem chars_toJson (t : Transfer) : t.toJson.chars =
    ('\x7b' :: stringChars "from" ++ [':']) ++ (stringChars t.sender ++
      ((',' :: stringChars "to" ++ [':']) ++ (stringChars t.recipient ++
        ((',' :: stringChars "amount" ++ [':']) ++ (numberChars (.float t.amount) ++
          ',' :: ((stringChars "timestamp" ++ [':']) ++
            (numberChars (.integer t.timestamp.toInt) ++
              ',' :: ((stringChars "nonce" ++ [':']) ++ (stringChars t.nonce ++ ['\x7d']))))))))) := by
  simp only [toJson, members, chars, membersChars, commas, Json.float, Json.integer,
    List.append_assoc, List.cons_append, List.nil_append]

/-- No two transfers with finite amounts have the same bytes signed: the bytes tell every member of
the body, and the amount up to its bits. -/
theorem canonical_injective {t u : Transfer} (ht : t.amount.isFinite = true)
    (hu : u.amount.isFinite = true)
    (h : Keyring.canonical t.toJson = Keyring.canonical u.toJson) :
    t.sender = u.sender ∧ t.recipient = u.recipient ∧ t.nonce = u.nonce ∧
      t.timestamp = u.timestamp ∧ t.amount.bits = u.amount.bits := by
  have hchars : t.toJson.chars = u.toJson.chars := by
    have htext := Bytes.ofText_injective h
    rwa [compact, compact, String.ofList_inj] at htext
  rw [chars_toJson, chars_toJson] at hchars
  obtain ⟨hsender, hchars⟩ := stringChars_append_inj (List.append_cancel_left hchars)
  obtain ⟨hrecipient, hchars⟩ := stringChars_append_inj (List.append_cancel_left hchars)
  obtain ⟨hamount, hchars⟩ := append_comma_inj (comma_notMem_float ht) (comma_notMem_float hu)
    (List.append_cancel_left hchars)
  obtain ⟨htimestamp, hchars⟩ := append_comma_inj (comma_notMem_integer _) (comma_notMem_integer _)
    (List.append_cancel_left hchars)
  obtain ⟨hnonce, -⟩ := stringChars_append_inj (List.append_cancel_left hchars)
  exact ⟨hsender, hrecipient, hnonce, Int64.toInt_inj.mp (numberChars_integer_inj htimestamp),
    congrArg Binary64.bits (numberChars_float_inj ht hu hamount)⟩

/-- A transfer of -0.0 whose strings look like parts of a body. -/
def quoting : Transfer :=
  { sender := "a\",\"to\":\"", recipient := "\\", amount := .zero true, timestamp := -1,
    nonce := "\n\x7d" }

/-- The bytes that were signed for the quoting transfer tell the body that a ledger finds under its
signature. -/
theorem canonical_injective_quoting :
    let found := (quoting.signed "f0").unsigned
    (quoting.amount.isFinite = true ∧ found.amount.isFinite = true ∧
      Keyring.canonical quoting.toJson = Keyring.canonical found.toJson) ∧
    (quoting.sender = found.sender ∧ quoting.recipient = found.recipient ∧
      quoting.nonce = found.nonce ∧ quoting.timestamp = found.timestamp ∧
      quoting.amount.bits = found.amount.bits) := by
  intro found
  have hfinite : quoting.amount.isFinite = true := by decide
  exact ⟨⟨hfinite, hfinite, rfl⟩, canonical_injective hfinite hfinite rfl⟩

end Transfer
end WalletEngine
