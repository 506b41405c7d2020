import Mathlib.Data.List.DropRight
import WalletEngine.Text.Blank

/-! # Trimmed texts

What is taken off the ends of a text is told by the characters alone: more of them at an end change
nothing, and once they are gone there is nothing left to take.
-/

namespace WalletEngine.Text
variable {p : Char → Bool} {before after cs : List Char}

theorem strip_eq_rdropWhile (p : Char → Bool) (cs : List Char) :
    strip p cs = (cs.dropWhile p).rdropWhile p := rfl

/-! ## Nothing is left to strip -/

theorem dropWhile_rdropWhile (p : Char → Bool) (cs : List Char) :
    ((cs.dropWhile p).rdropWhile p).dropWhile p = (cs.dropWhile p).rdropWhile p := by
  rw [List.dropWhile_eq_self_iff]
  intro hlength hblank
  -- What is left after the end is taken off starts with what the list starts with.
  have hkept := List.rdropWhile_prefix p (cs.dropWhile p)
  rw [hkept.getElem hlength] at hblank
  exact List.dropWhile_get_zero_not p cs _ hblank

theorem strip_strip (p : Char → Bool) (cs : List Char) : strip p (strip p cs) = strip p cs := by
  rw [strip_eq_rdropWhile p (strip p cs), strip_eq_rdropWhile p cs, dropWhile_rdropWhile,
    List.rdropWhile_idempotent]

/-- A trimmed text has nothing left to trim. -/
theorem trim_trim (s : String) : trim (trim s) = trim s := by
  rw [trim, trim, String.toList_ofList, strip_strip]

/-! ## Characters at the ends -/

theorem strip_eq_nil (h : ∀ c ∈ cs, p c = true) : strip p cs = [] := by
  rw [strip_eq_rdropWhile, List.dropWhile_eq_nil_iff.mpr h]
  rfl

theorem rdropWhile_append_of_pos (hafter : ∀ c ∈ after, p c = true) :
    (cs ++ after).rdropWhile p = cs.rdropWhile p := by
  rw [List.rdropWhile, List.reverse_append,
    List.dropWhile_append_of_pos fun c hc => hafter c (List.mem_reverse.mp hc)]
  rfl

/-- What would be taken off anyway can be added at the ends. -/
theorem strip_append (hbefore : ∀ c ∈ before, p c = true) (hafter : ∀ c ∈ after, p c = true)
    (cs : List Char) : strip p (before ++ cs ++ after) = strip p cs := by
  rw [strip_eq_rdropWhile, strip_eq_rdropWhile, List.append_assoc,
    List.dropWhile_append_of_pos hbefore, List.dropWhile_append]
  split
  next hempty =>
    rw [List.dropWhile_eq_nil_iff.mpr hafter, List.isEmpty_iff.mp hempty]
  next => exact rdropWhile_append_of_pos hafter

/-- A text that is empty or has blank characters only. -/
def IsBlank (s : String) : Prop := ∀ c ∈ s.toList, isBlank c = true

instance (s : String) : Decidable (IsBlank s) :=
  decidable_of_iff (s.toList.all isBlank = true) List.all_eq_true

theorem trim_of_isBlank {s : String} (h : IsBlank s) : trim s = "" := by
  rw [trim, strip_eq_nil h, String.ofList_nil]

/-- Blanks around a text change nothing in what is left of it. -/
theorem trim_append {before after : String} (hbefore : IsBlank before) (hafter : IsBlank after)
    (s : String) : trim (before ++ s ++ after) = trim s := by
  rw [trim, trim, String.toList_append, String.toList_append, strip_append hbefore hafter]

end WalletEngine.Text
