import WalletEngine.Json.Variant
import WalletEngine.Proofs.Json.Members

/-! # What tells an alternative

An alternative with a tag is told by the value under the tag and the members beside it, or by the first
element of a list and the elements behind it.
-/

namespace WalletEngine.Json.Decoder

open Steps

variable {α τ : Type} {content : Content} {tag : String} {find : String → Except Cause τ}

/-- Where there is no tag all members are left as they came. -/
theorem takeTagged_of_notMem {tags : Decoder τ} {ms : List (String × Json)}
    (h : tag ∉ ms.map Prod.fst) (seen : Option τ) :
    takeTagged tag tags content seen ms = .ok (seen, ms) := by
  induction ms with
  | nil => rfl
  | cons m ms ih =>
      rw [List.map_cons, List.mem_cons, not_or] at h
      rw [takeTagged, if_neg (Ne.symm h.1), ih h.2]
      rfl

/-- The member under the tag is for the tag, the others are left as they came. -/
theorem takeTagged_iff {tags : Decoder τ} {ms others : List (String × Json)}
    (h : (ms.map Prod.fst).Nodup) {t : τ} :
    takeTagged tag tags content none ms = .ok (some t, others) ↔
      ∃ j, ms.lookup tag = some j ∧ tags.ofTree content j = .ok t ∧ apart tag ms = others := by
  induction ms generalizing others with
  | nil => exact iff_of_false (fun h => nomatch h) (fun ⟨_, h, _⟩ => nomatch h)
  | cons m ms ih =>
      obtain ⟨name, j⟩ := m
      rw [List.map_cons, List.nodup_cons] at h
      rw [takeTagged, lookup_cons_eq]
      by_cases hname : name = tag
      · subst hname
        have hapart : apart name ((name, j) :: ms) = ms := by
          have hrest : ∀ m ∈ ms, decide (m.1 ≠ name) = true := fun m hm =>
            decide_eq_true fun heq => h.1 (List.mem_map.mpr ⟨m, hm, heq⟩)
          rw [apart, List.filter_cons, if_neg (by simp)]
          exact List.filter_eq_self.mpr hrest
        rw [if_pos rfl, if_pos rfl, hapart]
        constructor
        · intro htake
          obtain ⟨t, ht, hrest⟩ := bind_eq_ok_iff.mp htake
          cases (takeTagged_of_notMem h.1 (some t)).symm.trans hrest
          exact ⟨j, rfl, ht, rfl⟩
        · rintro ⟨_, ⟨⟩, ht, rfl⟩
          exact bind_eq_ok_iff.mpr ⟨t, ht, takeTagged_of_notMem h.1 _⟩
      · have hapart : apart tag ((name, j) :: ms) = (name, j) :: apart tag ms := by
          simp [apart, hname]
        rw [if_neg hname, if_neg (Ne.symm hname), hapart]
        constructor
        · intro htake
          obtain ⟨⟨_, rest⟩, hrest, ⟨⟩⟩ := bind_eq_ok_iff.mp htake
          obtain ⟨k, hk, ht, hothers⟩ := (ih h.2).mp hrest
          exact ⟨k, hk, ht, congrArg _ hothers⟩
        · rintro ⟨k, hk, ht, rfl⟩
          exact bind_eq_ok_iff.mpr ⟨_, (ih h.2).mpr ⟨k, hk, ht, rfl⟩, rfl⟩

theorem variantName_ofTree_iff {j : Json} {t : τ} :
    (variantName find).ofTree content j = .ok t ↔ ∃ name, j = .string name ∧ find name = .ok t := by
  cases j with
  | string name => exact ⟨fun h => ⟨name, rfl, h⟩, fun ⟨_, hname, h⟩ => string.inj hname ▸ h⟩
  | _ => exact iff_of_false (fun h => nomatch h) (fun ⟨_, h, _⟩ => nomatch h)

variable {expected : String} {payload : τ → Json → Except Cause α} {a : α}

/-- An alternative is taken from an object if what is found under the tag names it, and the other
members are its payload. -/
theorem tagged_object_iff {ms : List (String × Json)} (h : (ms.map Prod.fst).Nodup) :
    (tagged expected tag find payload).ofTree content (.object ms) = .ok a ↔
      ∃ name t, ms.lookup tag = some (.string name) ∧ find name = .ok t ∧
        payload t (.object (apart tag ms)) = .ok a := by
  change (takeTagged tag (variantName find) content none ms >>= _) = _ ↔ _
  rw [bind_eq_ok_iff]
  constructor
  · rintro ⟨⟨_ | t, others⟩, htake, hpayload⟩
    · cases hpayload
    · obtain ⟨j, hj, ht, rfl⟩ := (takeTagged_iff h).mp htake
      obtain ⟨name, rfl, hname⟩ := variantName_ofTree_iff.mp ht
      exact ⟨name, t, hj, hname, hpayload⟩
  · rintro ⟨name, t, hj, hname, hpayload⟩
    refine ⟨(some t, apart tag ms), (takeTagged_iff h).mpr ⟨_, hj, ?_, rfl⟩, hpayload⟩
    exact variantName_ofTree_iff.mpr ⟨name, rfl, hname⟩

/-- An alternative is taken from a list if the first element names it, and the others are its
payload. -/
theorem tagged_array_iff {items : List Json} :
    (tagged expected tag find payload).ofTree content (.array items) = .ok a ↔
      ∃ name t rest, items = .string name :: rest ∧ find name = .ok t ∧
        payload t (.array rest) = .ok a := by
  cases items with
  | nil => exact iff_of_false (fun h => nomatch h) (fun ⟨_, _, _, h, _⟩ => nomatch h)
  | cons first rest =>
      change ((variantName find).ofTree content first >>= _) = _ ↔ _
      rw [bind_eq_ok_iff]
      constructor
      · rintro ⟨t, ht, hpayload⟩
        obtain ⟨name, rfl, hname⟩ := variantName_ofTree_iff.mp ht
        exact ⟨name, t, rest, rfl, hname, hpayload⟩
      · rintro ⟨name, t, _, ⟨⟩, hname, hpayload⟩
        exact ⟨t, variantName_ofTree_iff.mpr ⟨name, rfl, hname⟩, hpayload⟩

end WalletEngine.Json.Decoder
