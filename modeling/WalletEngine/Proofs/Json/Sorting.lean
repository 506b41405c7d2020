import Mathlib.Data.List.Nodup
import Mathlib.Data.String.Basic
import WalletEngine.Json.Value

/-! # Members in order

A value that was read or built as a tree has the members of every object in the order of their names,
each name once. Such members are a map: they are told by what is found under each name, and to sort
them changes nothing.
-/

namespace WalletEngine.Json

/-- Members in the order of their names, each name once. -/
def InOrder (ms : List (String × Json)) : Prop := ms.Pairwise fun a b => a.1 < b.1

/-- A value in which the members of every object are in order. -/
def IsSorted (j : Json) : Prop := j.sorted = j

section Members
variable {ms : List (String × Json)} {name : String} {value : Json}

theorem InOrder.nodup (h : InOrder ms) : (ms.map Prod.fst).Nodup :=
  (List.pairwise_map.mpr h).imp ne_of_lt

/-! ## What is found under a name -/

theorem lookup_cons_eq (name other : String) (value : Json) (ms : List (String × Json)) :
    ((other, value) :: ms).lookup name = if name = other then some value else ms.lookup name := by
  by_cases h : name = other
  · rw [h, List.lookup_cons_self, if_pos rfl]
  · rw [List.lookup_cons, beq_false_of_ne h, if_neg h]

theorem lookup_of_notMem (h : name ∉ ms.map Prod.fst) : ms.lookup name = none := by
  refine List.lookup_eq_none_iff.mpr fun m hm => bne_iff_ne.mpr ?_
  rintro rfl
  exact h (List.mem_map_of_mem hm)

/-- Where each name stands once, a value is found under a name exactly if it is a member. -/
theorem lookup_eq_some_iff (h : (ms.map Prod.fst).Nodup) :
    ms.lookup name = some value ↔ (name, value) ∈ ms := by
  induction ms with
  | nil => simp
  | cons m ms ih =>
      obtain ⟨first, other⟩ := m
      rw [List.map_cons, List.nodup_cons] at h
      rw [lookup_cons_eq, List.mem_cons, Prod.mk.injEq]
      by_cases hname : name = first
      · subst hname
        have hout : (name, value) ∉ ms := fun hmem =>
          h.1 (List.mem_map.mpr ⟨(name, value), hmem, rfl⟩)
        rw [if_pos rfl, or_iff_left hout, Option.some.injEq, eq_comm, and_iff_right rfl]
      · rw [if_neg hname, ih h.2, or_iff_right (mt And.left hname)]

/-- The members whose names pass a test. -/
theorem lookup_filter (p : String → Bool) (ms : List (String × Json)) (name : String) :
    (ms.filter fun m => p m.1).lookup name = if p name then ms.lookup name else none := by
  induction ms with
  | nil => simp
  | cons m ms ih =>
      obtain ⟨first, value⟩ := m
      rw [List.filter_cons, lookup_cons_eq name first]
      by_cases hname : name = first
      · subst hname
        split
        next => rw [lookup_cons_eq, if_pos rfl, if_pos rfl]
        next hp => rw [ih, if_neg hp]
      · rw [if_neg hname, ← ih]
        split
        next => rw [lookup_cons_eq, if_neg hname]
        next => rfl

/-- Members in order are told by what is found under each name. -/
theorem InOrder.ext {ns : List (String × Json)} (hms : InOrder ms) (hns : InOrder ns)
    (h : ∀ name, ms.lookup name = ns.lookup name) : ms = ns := by
  have hmem : ∀ m, m ∈ ms ↔ m ∈ ns := fun m => by
    rw [← lookup_eq_some_iff hms.nodup, ← lookup_eq_some_iff hns.nodup, h]
  have hperm : ms.Perm ns :=
    (List.perm_ext_iff_of_nodup hms.nodup.of_map hns.nodup.of_map).mpr hmem
  exact hperm.eq_of_pairwise (fun a b _ _ hab hba => absurd hab (lt_asymm hba)) hms hns

/-! ## Sorting -/

theorem mem_insert {m : String × Json} (h : m ∈ insert name value ms) :
    m = (name, value) ∨ m ∈ ms := by
  induction ms with
  | nil => exact .inl (List.mem_singleton.mp h)
  | cons first ms ih =>
      rw [insert] at h
      split at h
      next => exact List.mem_cons.mp h
      next =>
        split at h
        next => exact (List.mem_cons.mp h).imp_right (List.mem_cons_of_mem _)
        next =>
          rcases List.mem_cons.mp h with hfirst | hrest
          · exact .inr (hfirst ▸ List.mem_cons_self)
          · exact (ih hrest).imp_right (List.mem_cons_of_mem _)

theorem InOrder.insert (h : InOrder ms) (name : String) (value : Json) :
    InOrder (insert name value ms) := by
  induction ms with
  | nil => exact List.pairwise_singleton _ _
  | cons first ms ih =>
      obtain ⟨hfirst, hrest⟩ := List.pairwise_cons.mp h
      rw [Json.insert]
      split
      next hless =>
        refine List.pairwise_cons.mpr ⟨fun m hm => ?_, h⟩
        rcases List.mem_cons.mp hm with rfl | hm
        · exact hless
        · exact lt_trans hless (hfirst m hm)
      next hnot =>
        split
        next hsame => exact List.pairwise_cons.mpr ⟨fun m hm => hsame ▸ hfirst m hm, hrest⟩
        next hother =>
          refine List.pairwise_cons.mpr ⟨fun m hm => ?_, ih hrest⟩
          rcases mem_insert hm with rfl | hm
          · exact lt_of_le_of_ne (not_lt.mp hnot) (Ne.symm hother)
          · exact hfirst m hm

theorem lookup_insert (name : String) (value : Json) (ms : List (String × Json)) (asked : String) :
    (insert name value ms).lookup asked = if asked = name then some value else ms.lookup asked := by
  induction ms with
  | nil => exact lookup_cons_eq asked name value []
  | cons first ms ih =>
      obtain ⟨other, old⟩ := first
      rw [insert]
      split
      next => exact lookup_cons_eq asked name value _
      next =>
        rw [lookup_cons_eq asked other old]
        split
        next hsame =>
          rw [lookup_cons_eq, hsame]
          split <;> rfl
        next hother =>
          rw [lookup_cons_eq, ih]
          split
          next hasked => rw [if_neg (hasked ▸ Ne.symm hother)]
          next => rfl

/-- Members are put into members in order. -/
theorem inOrder_foldl {sorted : List (String × Json)} (h : InOrder sorted)
    (ms : List (String × Json)) :
    InOrder (ms.foldl (fun sorted m => insert m.1 m.2 sorted) sorted) := by
  induction ms generalizing sorted with
  | nil => exact h
  | cons m ms ih => exact ih (h.insert m.1 m.2)

theorem inOrder_sortMembers (ms : List (String × Json)) : InOrder (sortMembers ms) :=
  inOrder_foldl List.Pairwise.nil ms

theorem lookup_foldl (h : (ms.map Prod.fst).Nodup) (sorted : List (String × Json)) (name : String) :
    (ms.foldl (fun sorted m => insert m.1 m.2 sorted) sorted).lookup name =
      (ms.lookup name).or (sorted.lookup name) := by
  induction ms generalizing sorted with
  | nil => rfl
  | cons m ms ih =>
      obtain ⟨first, value⟩ := m
      rw [List.map_cons, List.nodup_cons] at h
      rw [List.foldl_cons, ih h.2, lookup_insert, lookup_cons_eq]
      split
      next hname =>
        rw [hname, lookup_of_notMem h.1]
        rfl
      next => rfl

/-- To sort members of different names leaves each value under its name. -/
theorem lookup_sortMembers (h : (ms.map Prod.fst).Nodup) (name : String) :
    (sortMembers ms).lookup name = ms.lookup name :=
  (lookup_foldl h [] name).trans (Option.or_none)

theorem InOrder.sortMembers (h : InOrder ms) : sortMembers ms = ms :=
  (inOrder_sortMembers ms).ext h fun name => lookup_sortMembers h.nodup name

/-! ## Sorted values -/

theorem sortedMembers_eq (ms : List (String × Json)) :
    sortedMembers ms = ms.map fun m => (m.1, m.2.sorted) := by
  induction ms with
  | nil => rfl
  | cons m ms ih => rw [sortedMembers, ih, List.map_cons]

theorem sortedMembers_of_isSorted (h : ∀ m ∈ ms, m.2.IsSorted) : sortedMembers ms = ms := by
  rw [sortedMembers_eq]
  have hsame : ∀ m ∈ ms, (m.1, m.2.sorted) = id m := fun m hm => Prod.ext rfl (h m hm)
  exact (List.map_congr_left hsame).trans (List.map_id ms)

/-- An object is sorted if its members are in order and their values are sorted. -/
theorem isSorted_object_iff :
    (Json.object ms).IsSorted ↔ InOrder ms ∧ ∀ m ∈ ms, m.2.IsSorted := by
  rw [IsSorted, sorted, object.injEq]
  constructor
  · intro h
    have horder : InOrder ms := h ▸ inOrder_sortMembers _
    have hnames : (sortedMembers ms).map Prod.fst = ms.map Prod.fst := by
      rw [sortedMembers_eq, List.map_map]
      rfl
    have horder' : InOrder (sortedMembers ms) :=
      List.pairwise_map.mp (hnames ▸ List.pairwise_map.mpr horder)
    rw [horder'.sortMembers, sortedMembers_eq] at h
    have hsame := List.map_inj_left.mp (h.trans (List.map_id ms).symm)
    exact ⟨horder, fun m hm => congrArg Prod.snd (hsame m hm)⟩
  · rintro ⟨horder, hvalues⟩
    rw [sortedMembers_of_isSorted hvalues, horder.sortMembers]

end Members
end WalletEngine.Json
