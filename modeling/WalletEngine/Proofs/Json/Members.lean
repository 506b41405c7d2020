import WalletEngine.Proofs.Json.Agreement
import WalletEngine.Proofs.Json.Sorting

/-! # What an object tells of the fields of a record

A record is taken from an object if each of its fields is told: by the one value under its name, or
by the value for its absence if there is none. Two values under the name of a field are refused, and
names of no field do not matter.
-/

namespace WalletEngine.Json

open Steps

/-- The values under a name, in the order in which they came. -/
def valuesOf (name : String) (ms : List (String × Json)) : List Json :=
  (ms.filter fun m => m.1 = name).map Prod.snd

/-- The members under other names. -/
def apart (name : String) (ms : List (String × Json)) : List (String × Json) :=
  ms.filter fun m => m.1 ≠ name

theorem valuesOf_apart {name other : String} (h : other ≠ name) (ms : List (String × Json)) :
    valuesOf other (apart name ms) = valuesOf other ms := by
  rw [valuesOf, valuesOf, apart, List.filter_filter]
  congr 2
  funext m
  by_cases hother : m.1 = other
  · simp [hother, h]
  · simp [hother]

/-- Where each name stands once, the value under a name is the one that is found. -/
theorem valuesOf_eq {ms : List (String × Json)} (h : (ms.map Prod.fst).Nodup) (name : String) :
    valuesOf name ms = (ms.lookup name).toList := by
  induction ms with
  | nil => rfl
  | cons m ms ih =>
      obtain ⟨first, value⟩ := m
      rw [List.map_cons, List.nodup_cons] at h
      rw [lookup_cons_eq]
      by_cases hname : name = first
      · subst hname
        have hout : valuesOf name ms = [] := by
          rw [ih h.2, lookup_of_notMem h.1]
          rfl
        rw [valuesOf] at hout
        simp [valuesOf, hout]
      · rw [if_neg hname, ← ih h.2]
        simp [valuesOf, Ne.symm hname]

/-- The members under names of no field. -/
def unknown (fs : List Field) (ms : List (String × Json)) : List (String × Json) :=
  ms.filter fun m => m.1 ∉ fs.map Field.name

namespace Field

/-- What the values under its name tell of a field. -/
def Tells (f : Field) (content : Content) (values : List Json) (value : f.Carrier) : Prop :=
  match values with
  | [] => f.absent = some value
  | [j] => f.decoder.ofTree content j = .ok value
  | _ => False

/-- What the values under its name make of the slot of a field. -/
def Fills (f : Field) (content : Content) (slot : Option f.Carrier) (values : List Json)
    (filled : Option f.Carrier) : Prop :=
  match values with
  | [] => filled = slot
  | [j] => slot = none ∧ ∃ value, f.decoder.ofTree content j = .ok value ∧ filled = some value
  | _ => False

variable {f : Field} {content : Content}

theorem fills_cons {slot filled : Option f.Carrier} {j : Json} {values : List Json} :
    f.Fills content slot (j :: values) filled ↔
      slot = none ∧ ∃ value, f.decoder.ofTree content j = .ok value ∧
        f.Fills content (some value) values filled := by
  cases values with
  | nil => rfl
  | cons k values =>
      constructor
      · exact False.elim
      · rintro ⟨-, value, -, hfills⟩
        cases values with
        | nil => cases hfills.1
        | cons => exact hfills

/-- A slot that was empty has a value in the end, of its own or that for its absence. -/
theorem tells_iff {values : List Json} {value : f.Carrier} :
    f.Tells content values value ↔
      ∃ filled, f.Fills content none values filled ∧ (filled <|> f.absent) = some value := by
  rcases values with _ | ⟨j, _ | ⟨k, values⟩⟩
  · simp [Tells, Fills]
  · simp [Tells, Fills]
  · simp [Tells, Fills]

end Field

/-- Each field of a row is told by the values under its name. -/
def Row.Told (content : Content) (ms : List (String × Json)) : {fs : List Field} → Row fs → Prop
  | [], _ => True
  | f :: _, (value, row) => f.Tells content (valuesOf f.name ms) value ∧ row.Told content ms

namespace Decoder
variable {content : Content}

theorem decodeTree_eq_ok_iff {α : Type} {d : Decoder α} {j : Json} {a : α} :
    d.decodeTree j = .ok a ↔ d.ofTree .value j = .ok a := by
  rw [decodeTree]
  cases d.ofTree .value j with
  | ok b => exact ⟨fun h => congrArg Except.ok (Except.ok.inj h),
      fun h => congrArg Except.ok (Except.ok.inj h)⟩
  | error cause => exact iff_of_false (fun h => nomatch h) (fun h => nomatch h)

theorem exists_kept_iff {α β : Type} {taken : Except Cause (α × List β)} {a : α} {b : β} :
    (∃ others, (do
        let (a, others) ← taken
        return (a, b :: others) : Except Cause (α × List β)) = .ok (a, others)) ↔
      ∃ others, taken = .ok (a, others) := by
  constructor
  · rintro ⟨others, h⟩
    obtain ⟨⟨_, others⟩, htaken, ⟨⟩⟩ := bind_eq_ok_iff.mp h
    exact ⟨others, htaken⟩
  · rintro ⟨others, htaken⟩
    exact ⟨b :: others, bind_eq_ok_iff.mpr ⟨_, htaken, rfl⟩⟩

/-- The members under the name of the first field are for its slot, the others for the other slots.
-/
theorem takeMembers_cons_iff {f : Field} {fs : List Field} {slot' : Option f.Carrier}
    {slots' : Slots fs} (ms : List (String × Json)) :
    ∀ (slot : Option f.Carrier) (slots : Slots fs),
      (∃ others, @takeMembers (f :: fs) content (slot, slots) ms =
        .ok ((slot', slots'), others)) ↔
      f.Fills content slot (valuesOf f.name ms) slot' ∧
        ∃ others, takeMembers content slots (apart f.name ms) = .ok (slots', others) := by
  induction ms with
  | nil =>
      intro slot slots
      constructor
      · rintro ⟨others, ⟨⟩⟩
        exact ⟨rfl, [], rfl⟩
      · rintro ⟨⟨⟩, others, ⟨⟩⟩
        exact ⟨[], rfl⟩
  | cons m ms ih =>
      obtain ⟨name, j⟩ := m
      intro slot slots
      simp only [takeMembers, Slots.takeMember]
      by_cases hname : f.name = name
      · have hvalues : valuesOf f.name ((name, j) :: ms) = j :: valuesOf f.name ms := by
          simp [valuesOf, hname]
        have hapart : apart f.name ((name, j) :: ms) = apart f.name ms := by
          simp [apart, hname]
        rw [if_pos hname, hvalues, hapart, Field.fills_cons]
        cases slot with
        | some value =>
            constructor
            · rintro ⟨others, ⟨⟩⟩
            · rintro ⟨⟨⟨⟩, -⟩, -⟩
        | none =>
            constructor
            · rintro ⟨others, h⟩
              obtain ⟨filled, htaken, hrest⟩ := bind_eq_ok_iff.mp h
              obtain ⟨value, hvalue, ⟨⟩⟩ := bind_eq_ok_iff.mp htaken
              obtain ⟨hfills, hothers⟩ := (ih (some value) slots).mp ⟨others, hrest⟩
              exact ⟨⟨rfl, value, hvalue, hfills⟩, hothers⟩
            · rintro ⟨⟨-, value, hvalue, hfills⟩, hothers⟩
              obtain ⟨others, hrest⟩ := (ih (some value) slots).mpr ⟨hfills, hothers⟩
              refine ⟨others, bind_eq_ok_iff.mpr ⟨(some value, slots), ?_, hrest⟩⟩
              exact bind_eq_ok_iff.mpr ⟨value, hvalue, rfl⟩
      · have hvalues : valuesOf f.name ((name, j) :: ms) = valuesOf f.name ms := by
          simp [valuesOf, Ne.symm hname]
        have hapart : apart f.name ((name, j) :: ms) = (name, j) :: apart f.name ms := by
          simp [apart, Ne.symm hname]
        rw [if_neg hname, hvalues, hapart, takeMembers]
        cases slots.takeMember content name j with
        | none =>
            refine exists_kept_iff.trans ((ih slot slots).trans ?_)
            exact and_congr_right' exists_kept_iff.symm
        | some taken =>
            constructor
            · rintro ⟨others, h⟩
              obtain ⟨filled, htaken, hrest⟩ := bind_eq_ok_iff.mp h
              obtain ⟨next, hnext, ⟨⟩⟩ := map_eq_ok_iff.mp htaken
              obtain ⟨hfills, more, hothers⟩ := (ih slot next).mp ⟨others, hrest⟩
              exact ⟨hfills, more, bind_eq_ok_iff.mpr ⟨next, hnext, hothers⟩⟩
            · rintro ⟨hfills, others, h⟩
              obtain ⟨next, hnext, hothers⟩ := bind_eq_ok_iff.mp h
              obtain ⟨more, hrest⟩ := (ih slot next).mpr ⟨hfills, others, hothers⟩
              refine ⟨more, bind_eq_ok_iff.mpr ⟨(slot, next), ?_, hrest⟩⟩
              exact map_eq_ok_iff.mpr ⟨next, hnext, rfl⟩

theorem takeMembers_nil (ms : List (String × Json)) :
    ∃ others, @takeMembers [] content () ms = .ok ((), others) := by
  induction ms with
  | nil => exact ⟨[], rfl⟩
  | cons m ms ih => exact exists_kept_iff.mpr ih

theorem takeMember_eq_none_iff {fs : List Field} {slots : Slots fs} {name : String} {j : Json} :
    slots.takeMember content name j = none ↔ name ∉ fs.map Field.name := by
  induction fs with
  | nil => exact iff_of_true rfl List.not_mem_nil
  | cons f fs ih =>
      obtain ⟨slot, slots⟩ := slots
      rw [Slots.takeMember, List.map_cons, List.mem_cons, not_or]
      by_cases hname : f.name = name
      · rw [if_pos hname]
        exact iff_of_false (Option.some_ne_none _) fun h => h.1 hname.symm
      · rw [if_neg hname, Option.map_eq_none_iff, ih, and_iff_right (Ne.symm hname)]

/-- What is taken for no field are the members under other names. -/
theorem others_of_takeMembers {fs : List Field} {ms others : List (String × Json)} :
    ∀ {slots filled : Slots fs}, takeMembers content slots ms = .ok (filled, others) →
      others = unknown fs ms := by
  induction ms generalizing others with
  | nil =>
      rintro slots filled ⟨⟩
      rfl
  | cons m ms ih =>
      obtain ⟨name, j⟩ := m
      intro slots filled h
      rw [takeMembers] at h
      rw [unknown, List.filter_cons]
      split at h
      next taken htaken =>
        have hknown : name ∈ fs.map Field.name := by
          by_contra hunknown
          cases htaken.symm.trans (takeMember_eq_none_iff.mpr hunknown)
        obtain ⟨next, -, hrest⟩ := bind_eq_ok_iff.mp h
        rw [if_neg (by simpa using hknown)]
        exact ih hrest
      next htaken =>
        have hunknown := takeMember_eq_none_iff.mp htaken
        obtain ⟨⟨_, rest⟩, hrest, ⟨⟩⟩ := bind_eq_ok_iff.mp h
        rw [if_pos (by simpa using hunknown), ih hrest]
        rfl

theorem told_apart {name : String} {fs : List Field} (hname : name ∉ fs.map Field.name)
    (ms : List (String × Json)) (row : Row fs) :
    row.Told content (apart name ms) ↔ row.Told content ms := by
  induction fs with
  | nil => rfl
  | cons f fs ih =>
      obtain ⟨value, row⟩ := row
      rw [List.map_cons, List.mem_cons, not_or] at hname
      rw [Row.Told, Row.Told, valuesOf_apart (Ne.symm hname.1), ih hname.2 row]

theorem complete_cons_iff {f : Field} {fs : List Field} {slot : Option f.Carrier} {slots : Slots fs}
    {value : f.Carrier} {row : Row fs} :
    @Slots.complete (f :: fs) (slot, slots) = .ok (value, row) ↔
      (slot <|> f.absent) = some value ∧ slots.complete = .ok row := by
  simp only [Slots.complete]
  cases slot <|> f.absent with
  | none =>
      constructor
      · rintro ⟨⟩
      · rintro ⟨⟨⟩, -⟩
  | some found =>
      constructor
      · intro h
        obtain ⟨_, ⟨⟩, hrow⟩ := bind_eq_ok_iff.mp h
        obtain ⟨_, hslots, ⟨⟩⟩ := bind_eq_ok_iff.mp hrow
        exact ⟨rfl, hslots⟩
      · rintro ⟨⟨⟩, hslots⟩
        exact bind_eq_ok_iff.mpr ⟨_, rfl, bind_eq_ok_iff.mpr ⟨row, hslots, rfl⟩⟩

/-- Members can be taken into a full row exactly if they tell its fields. -/
theorem taken_iff_told {fs : List Field} (hnames : (fs.map Field.name).Nodup)
    {ms : List (String × Json)} {row : Row fs} :
    (∃ slots, (∃ others, takeMembers content (Slots.empty fs) ms = .ok (slots, others)) ∧
        slots.complete = .ok row) ↔ row.Told content ms := by
  induction fs generalizing ms with
  | nil => exact iff_of_true ⟨(), takeMembers_nil ms, rfl⟩ trivial
  | cons f fs ih =>
      obtain ⟨value, row⟩ := row
      rw [List.map_cons, List.nodup_cons] at hnames
      rw [Row.Told, ← told_apart hnames.1, ← ih hnames.2, Field.tells_iff]
      constructor
      · rintro ⟨⟨slot, slots⟩, htake, hcomplete⟩
        obtain ⟨hfills, hothers⟩ := (takeMembers_cons_iff ms none _).mp htake
        obtain ⟨hslot, hslots⟩ := complete_cons_iff.mp hcomplete
        exact ⟨⟨slot, hfills, hslot⟩, slots, hothers, hslots⟩
      · rintro ⟨⟨slot, hfills, hslot⟩, slots, hothers, hslots⟩
        refine ⟨(slot, slots), ?_, complete_cons_iff.mpr ⟨hslot, hslots⟩⟩
        exact (takeMembers_cons_iff ms none _).mpr ⟨hfills, hothers⟩

/-- The rows that are taken from an object are those whose fields the members tell. -/
theorem takeRecord_iff_told {fs : List Field} (hnames : (fs.map Field.name).Nodup)
    {expected whole : String} {ms : List (String × Json)} {row : Row fs} :
    takeRecord expected whole fs content (.object ms) = .ok row ↔ row.Told content ms :=
  takeRecord_object_iff.trans (taken_iff_told hnames)

/-- An open record keeps the members under names of no field, in order. -/
theorem openRecord_iff_told {α : Type} {fs : List Field} (hnames : (fs.map Field.name).Nodup)
    {name : String} {build : Row fs → List (String × Json) → α} {ms : List (String × Json)} {a : α} :
    (openRecord name fs build).ofTree content (.object ms) = .ok a ↔
      ∃ row : Row fs, row.Told content ms ∧ build row (sortMembers (unknown fs ms)) = a := by
  simp only [← taken_iff_told hnames]
  constructor
  · intro h
    obtain ⟨⟨slots, others⟩, htake, hmore⟩ := bind_eq_ok_iff.mp h
    obtain ⟨row, hrow, ⟨⟩⟩ := bind_eq_ok_iff.mp hmore
    rw [← others_of_takeMembers htake]
    exact ⟨row, ⟨slots, ⟨others, htake⟩, hrow⟩, rfl⟩
  · rintro ⟨row, ⟨slots, ⟨others, htake⟩, hrow⟩, rfl⟩
    rw [← others_of_takeMembers htake]
    exact bind_eq_ok_iff.mpr ⟨(slots, others), htake, bind_eq_ok_iff.mpr ⟨row, hrow, rfl⟩⟩

/-! ## Scalars -/

section Scalars
variable {j : Json}

theorem bool_ofTree_iff {b : Bool} : bool.ofTree content j = .ok b ↔ j = .bool b := by
  cases j with
  | bool b' =>
      constructor
      · rintro ⟨⟩
        rfl
      · rintro ⟨⟩
        rfl
  | _ => exact iff_of_false (fun h => nomatch h) (fun h => nomatch h)

theorem string_ofTree_iff {t : String} : string.ofTree content j = .ok t ↔ j = .string t := by
  cases j with
  | string t' =>
      constructor
      · rintro ⟨⟩
        rfl
      · rintro ⟨⟩
        rfl
  | _ => exact iff_of_false (fun h => nomatch h) (fun h => nomatch h)

theorem exists_float_ofTree_iff :
    (∃ x, float.ofTree content j = .ok x) ↔ ∃ n, j = .number n := by
  cases j with
  | number n =>
      refine iff_of_true ?_ ⟨n, rfl⟩
      cases n with
      | integer n => exact ⟨.ofInt n, rfl⟩
      | float x => exact ⟨x, rfl⟩
  | _ => exact iff_of_false (fun ⟨_, h⟩ => nomatch h) (fun ⟨_, h⟩ => nomatch h)

/-- An integer of 64 bits is read from itself only. -/
theorem int64_ofTree_iff {t : Int64} :
    int64.ofTree content j = .ok t ↔ j = .integer t.toInt := by
  cases j with
  | number n =>
      cases n with
      | integer n =>
          change (if _ then _ else _) = _ ↔ _
          rw [Json.integer, Json.number.injEq, Number.integer.injEq]
          split
          next hrange =>
            rw [Bool.and_eq_true, decide_eq_true_eq, decide_eq_true_eq] at hrange
            rw [Except.ok.injEq]
            constructor
            · rintro rfl
              exact (Int64.toInt_ofInt_of_le hrange.1 (Int.lt_add_one_of_le hrange.2)).symm
            · rintro rfl
              exact Int64.ofInt_toInt t
          next hrange =>
            refine iff_of_false (fun h => nomatch h) ?_
            rintro rfl
            refine hrange ?_
            rw [Bool.and_eq_true, decide_eq_true_eq, decide_eq_true_eq]
            exact ⟨t.minValue_le_toInt, t.toInt_le⟩
      | float x => exact iff_of_false (fun h => nomatch h) (fun h => nomatch h)
  | _ => exact iff_of_false (fun h => nomatch h) (fun h => nomatch h)

theorem ofTree_int64 (content : Content) (n : Int64) :
    int64.ofTree content (.integer n.toInt) = .ok n := int64_ofTree_iff.mpr rfl

end Scalars

/-! ## Optional fields -/

/-- A value of an optional type is `null` or one of the type. -/
theorem optional_ofTree_iff {α : Type} {d : Decoder α} {j : Json} {a? : Option α} :
    d.optional.ofTree content j = .ok a? ↔
      j = .null ∧ a? = none ∨ j ≠ .null ∧ ∃ a, d.ofTree content j = .ok a ∧ some a = a? := by
  by_cases hj : j = .null
  · subst hj
    constructor
    · rintro ⟨⟩
      exact .inl ⟨rfl, rfl⟩
    · rintro (⟨-, rfl⟩ | ⟨h, -⟩)
      · rfl
      · exact absurd rfl h
  · rw [optional_ofTree_of_ne_null d content hj, map_eq_ok_iff]
    simp only [hj, false_and, false_or, ne_eq, not_false_eq_true, true_and]

theorem optional_tells_iff {α : Type} {name : String} {d : Decoder α} {values : List Json}
    {a? : Option α} : (Field.optional name d).Tells content values a? ↔
      values = [] ∧ a? = none ∨ ∃ j, values = [j] ∧ d.optional.ofTree content j = .ok a? := by
  rcases values with _ | ⟨j, _ | ⟨k, values⟩⟩
  · simp [Field.Tells, Field.optional, Field.withDefault, eq_comm]
  · simp [Field.Tells, Field.optional, Field.withDefault]
  · simp [Field.Tells]

/-! ## Members of different names -/

section Lookup
variable {α : Type} {d : Decoder α} {ms : List (String × Json)} {name : String}

/-- A required field is told by the value that is found under its name. -/
theorem required_tells_lookup (h : (ms.map Prod.fst).Nodup) {a : α} :
    (Field.required name d).Tells content (valuesOf name ms) a ↔
      ∃ j, ms.lookup name = some j ∧ d.ofTree content j = .ok a := by
  rw [valuesOf_eq h]
  cases ms.lookup name with
  | none => exact iff_of_false (fun h => nomatch h) (fun ⟨_, h, _⟩ => nomatch h)
  | some j => exact ⟨fun h => ⟨j, rfl, h⟩, fun ⟨_, hj, h⟩ => Option.some.inj hj ▸ h⟩

/-- An optional field is told by the value that is found under its name, as if it were `null` where
there is none. -/
theorem optional_tells_lookup (h : (ms.map Prod.fst).Nodup) {a? : Option α} :
    (Field.optional name d).Tells content (valuesOf name ms) a? ↔
      d.optional.ofTree content ((ms.lookup name).getD .null) = .ok a? := by
  rw [valuesOf_eq h]
  cases ms.lookup name with
  | none => exact ⟨fun h => congrArg Except.ok (Option.some.inj h),
      fun h => congrArg some (Except.ok.inj h)⟩
  | some j => rfl

end Lookup

/-! ## Kept content

Where every field is taken alike from a value and from content that was kept, so is the record.
-/

section Kept
variable {fs : List Field}

theorem takeMember_kept (hfs : ∀ f ∈ fs, ∀ j, f.decoder.ofTree .kept j = f.decoder.ofTree .value j)
    (name : String) (j : Json) (slots : Slots fs) :
    slots.takeMember .kept name j = slots.takeMember .value name j := by
  induction fs with
  | nil => rfl
  | cons f fs ih =>
      obtain ⟨slot, slots⟩ := slots
      obtain ⟨hf, hfs⟩ := List.forall_mem_cons.mp hfs
      rw [Slots.takeMember, Slots.takeMember, hf, ih hfs]

theorem takeMembers_kept (hfs : ∀ f ∈ fs, ∀ j, f.decoder.ofTree .kept j = f.decoder.ofTree .value j)
    (ms : List (String × Json)) (slots : Slots fs) :
    takeMembers .kept slots ms = takeMembers .value slots ms := by
  induction ms generalizing slots with
  | nil => rfl
  | cons m ms ih => simp only [takeMembers, takeMember_kept hfs, ih]

theorem takeElements_kept
    (hfs : ∀ f ∈ fs, ∀ j, f.decoder.ofTree .kept j = f.decoder.ofTree .value j)
    (expected : String) (index : Nat) (items : List Json) :
    takeElements .kept expected index fs items = takeElements .value expected index fs items := by
  induction fs generalizing index items with
  | nil => rfl
  | cons f fs ih =>
      obtain ⟨hf, hfs⟩ := List.forall_mem_cons.mp hfs
      simp only [takeElements, hf, ih hfs]

/-- The causes of a refusal may differ in how they word the length of a list. -/
theorem takeRecord_kept_iff
    (hfs : ∀ f ∈ fs, ∀ j, f.decoder.ofTree .kept j = f.decoder.ofTree .value j)
    {expected whole : String} {j : Json} {row : Row fs} :
    takeRecord expected whole fs .kept j = .ok row ↔
      takeRecord expected whole fs .value j = .ok row := by
  cases j with
  | array items => rw [takeRecord_array_iff, takeRecord_array_iff, takeElements_kept hfs]
  | object ms => rw [takeRecord_object_iff, takeRecord_object_iff, takeMembers_kept hfs]
  | _ => exact iff_of_false (fun h => nomatch h) (fun h => nomatch h)

end Kept

end Decoder
end WalletEngine.Json
