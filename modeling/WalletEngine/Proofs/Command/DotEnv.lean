import Mathlib.Data.List.TakeDrop
import Mathlib.Data.List.TakeWhile
import WalletEngine.Command.Process
import WalletEngine.Proofs.Settings

/-! # What the file of variables does

A line defines a variable if it is no comment and has a name, an equals sign and a value that is not
empty. Of the lines that define a variable only the first one counts, and it counts only if the
variable is not set to a text before. The file is loaded whole if each definition that counts can be
carried out; one that cannot be carried out ends the process. Loading is harmless, then, if it never
comes to that and if no variable with an unreadable value is defined.
-/

namespace WalletEngine.Command.DotEnv

open Environment

variable {env later : Environment} {text line name value : String}

/-! ## Lines -/

/-- The definition is the first one of a variable that is not set to a text. -/
def Counts (env : Environment) (ds : List (String × String)) (name value : String) : Prop :=
  ds.lookup name = some value ∧ env.get? name = none

theorem lookup_cons_iff {first : String × String} {ds : List (String × String)} :
    (first :: ds).lookup name = some value ↔
      (name, value) = first ∨ name ≠ first.1 ∧ ds.lookup name = some value := by
  obtain ⟨other, second⟩ := first
  rw [List.lookup_cons]
  by_cases hname : name = other
  · simp [hname, eq_comm]
  · simp [hname, beq_false_of_ne hname]

theorem counts_cons_of_set {first : String × String} {ds : List (String × String)}
    (hset : env.get? first.1 ≠ none) :
    Counts env (first :: ds) name value ↔ Counts env ds name value := by
  rw [Counts, Counts, lookup_cons_iff]
  refine and_congr_left fun hunset => ?_
  have hname : name ≠ first.1 := by
    rintro rfl
    exact hset hunset
  have hfirst : (name, value) ≠ first := by
    rintro rfl
    exact hname rfl
  simp [hname, hfirst]

/-- Once a definition is carried out, those behind it count that are of other variables. -/
theorem counts_cons_of_unset {first : String × String} {ds : List (String × String)}
    (hunset : env.get? first.1 = none) :
    Counts env (first :: ds) name value ↔
      (name, value) = first ∨ Counts (env.set first.1 first.2) ds name value := by
  rw [Counts, Counts, lookup_cons_iff, or_and_right]
  by_cases hname : name = first.1
  · subst hname
    simp [hunset, get?_set_self]
  · have hget := (agreeBut_set first.1 first.2 env).get? hname
    have hfirst : (name, value) ≠ first := by
      rintro rfl
      exact hname rfl
    simp [hname, hfirst, hget]

/-- What comes of definitions: either each one that counts is carried out and nothing else is done, or
one that counts cannot be carried out. -/
inductive Outcome (env : Environment) (ds : List (String × String)) :
    Except Fault Environment → Prop
  | loaded {later : Environment}
      (carried : ∀ name value, Counts env ds name value →
        isSettable name value = true ∧ later.value? name = some (.text value))
      (kept : ∀ name, (∀ value, ¬Counts env ds name value) →
        later.value? name = env.value? name) :
      Outcome env ds (.ok later)
  | stuck {fault : Fault} (counts : Counts env ds fault.name fault.value)
      (unsettable : isSettable fault.name fault.value = false) : Outcome env ds (.error fault)

theorem outcome_nil (env : Environment) : Outcome env [] (.ok env) :=
  .loaded (fun _ _ hcounts => nomatch hcounts.1) (fun _ _ => rfl)

/-- A definition of a variable that is set to a text does nothing. -/
theorem Outcome.cons_of_set {first : String × String} {ds : List (String × String)}
    {result : Except Fault Environment} (hset : env.get? first.1 ≠ none)
    (h : Outcome env ds result) : Outcome env (first :: ds) result := by
  cases h with
  | loaded carried kept =>
      constructor
      · intro name value hcounts
        exact carried name value ((counts_cons_of_set hset).mp hcounts)
      · intro name hnone
        exact kept name fun value hcounts => hnone value ((counts_cons_of_set hset).mpr hcounts)
  | stuck counts unsettable => exact .stuck ((counts_cons_of_set hset).mpr counts) unsettable

/-- A definition that is carried out stays so. -/
theorem Outcome.cons_of_unset {first : String × String} {ds : List (String × String)}
    {result : Except Fault Environment} (hunset : env.get? first.1 = none)
    (hsettable : isSettable first.1 first.2 = true)
    (h : Outcome (env.set first.1 first.2) ds result) : Outcome env (first :: ds) result := by
  cases h with
  | @loaded later carried kept =>
      have hset : (env.set first.1 first.2).get? first.1 ≠ none := by
        rw [get?_set_self]
        exact Option.some_ne_none _
      have hkept : later.value? first.1 = some (.text first.2) := by
        rw [kept first.1 fun value hcounts => hset hcounts.2, value?_set, if_pos rfl]
      constructor
      · intro name value hcounts
        rcases (counts_cons_of_unset hunset).mp hcounts with rfl | hlater
        · exact ⟨hsettable, hkept⟩
        · exact carried name value hlater
      · intro name hnone
        have hname : name ≠ first.1 := by
          rintro rfl
          exact hnone first.2 ((counts_cons_of_unset hunset).mpr (.inl rfl))
        rw [kept name fun value hcounts =>
          hnone value ((counts_cons_of_unset hunset).mpr (.inr hcounts))]
        exact agreeBut_set first.1 first.2 env name hname
  | stuck counts unsettable =>
      exact .stuck ((counts_cons_of_unset hunset).mpr (.inr counts)) unsettable

theorem outcome_foldlM (ds : List (String × String)) (env : Environment) :
    Outcome env ds (ds.foldlM define env) := by
  induction ds generalizing env with
  | nil => exact outcome_nil env
  | cons first ds ih =>
      obtain ⟨name, value⟩ := first
      rw [List.foldlM_cons, define]
      cases hget : env.get? name with
      | some old =>
          have hset : env.get? name ≠ none := by
            rw [hget]
            exact Option.some_ne_none old
          exact (ih env).cons_of_set hset
      | none =>
          rw [if_neg (by simp)]
          cases hsettable : isSettable name value with
          | true => exact (ih (env.set name value)).cons_of_unset hget hsettable
          | false => exact .stuck ⟨List.lookup_cons_self, hget⟩ hsettable

theorem outcome_load (text : String) (env : Environment) :
    Outcome env (definitions text) (load text env) := outcome_foldlM _ _

end WalletEngine.Command.DotEnv
