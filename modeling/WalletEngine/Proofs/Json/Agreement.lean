import WalletEngine.Proofs.Json.Skipping

/-! # Reading and taking

A decoder reads its type from a text, and takes it from a tree that was read before. Where the text
can be read as a tree, both come to the same: what is read is what is taken from the tree, and the
text is refused if the tree is. A text that cannot be read as a tree may still be read by a decoder,
as the members that it does not ask for are checked for their form only.
-/

namespace WalletEngine.Json

open Steps Reader

namespace Decoder
variable {α : Type}

/-- Where a text can be read as a tree, what the decoder reads from the text is what it takes from
the tree, and it stops where the tree ends. -/
def Agrees (d : Decoder α) : Prop :=
  ∀ content depth text j rest, tree id depth text = .ok (j, rest) →
    ∀ a stop, d.read depth text = .ok (a, stop) ↔ d.ofTree content j = .ok a ∧ rest = stop

/-! ## Scalars -/

theorem leaves_mismatch {P : α → List Symbol → Prop} (expected : String) (s : Symbol)
    (text : List Symbol) : Leaves (mismatch expected s : Reader α) text P := by
  unfold mismatch
  split
  next => exact Leaves.bind fun _ _ _ => leaves_failHere _
  next => exact leaves_failHere _
  next => exact leaves_failHere _
  next => exact leaves_failNext _

theorem settle_ok {outcome : Except Cause α} {text stop : List Symbol} {a : α} :
    settle outcome text = .ok (a, stop) ↔ outcome = .ok a ∧ text = stop := by
  cases outcome with
  | ok b =>
      constructor
      · rintro ⟨⟩
        exact ⟨rfl, rfl⟩
      · rintro ⟨⟨⟩, rfl⟩
        rfl
  | error cause =>
      constructor
      · rintro ⟨⟩
      · rintro ⟨⟨⟩, -⟩

/-- A type of scalars that takes no container. -/
theorem agrees_scalar {expected : String} {convert : Json → Except Cause α}
    (harray : ∀ items a, convert (.array items) ≠ .ok a)
    (hobject : ∀ ms a, convert (.object ms) ≠ .ok a) : (scalar expected convert).Agrees := by
  intro content depth text j rest htree a stop
  simp only [scalar]
  cases leaves_tree _ _ _ _ htree with
  | scalar hsolid hscalar hread =>
      rw [bind_of_ok (peekSolid?_apply hsolid)]
      simp only [hscalar]
      rw [bind_of_ok hread]
      exact settle_ok
  | array hsolid =>
      rw [bind_of_ok (peekSolid?_apply hsolid)]
      constructor
      · intro h
        exact (leaves_mismatch (P := fun _ _ => False) expected _ _ a stop h).elim
      · rintro ⟨h, -⟩
        exact absurd h (harray _ _)
  | object hsolid =>
      rw [bind_of_ok (peekSolid?_apply hsolid)]
      constructor
      · intro h
        exact (leaves_mismatch (P := fun _ _ => False) expected _ _ a stop h).elim
      · rintro ⟨h, -⟩
        exact absurd h (hobject _ _)

theorem agrees_bool : bool.Agrees := agrees_scalar (fun _ _ h => nomatch h) (fun _ _ h => nomatch h)

theorem agrees_string : string.Agrees :=
  agrees_scalar (fun _ _ h => nomatch h) (fun _ _ h => nomatch h)

/-! ## Optional values -/

/-- Blanks in front of a tree do not count. -/
theorem tree_solid (arrange : List (String × Json) → List (String × Json)) (depth : Nat)
    (text : List Symbol) :
    tree arrange depth (text.dropWhile isSpace) = tree arrange depth text := by
  have hpeek : peekSolid? (text.dropWhile isSpace) = peekSolid? text := by
    simp only [peekSolid?, List.dropWhile_idempotent]
  cases depth with
  | zero => rw [tree, scalarOr, bind_apply, bind_apply, hpeek]
  | succ depth => rw [tree, scalarOr, bind_apply, bind_apply, hpeek]

/-- What a scalar that starts with `s` may be. -/
inductive ScalarCase (s : Symbol) (tail rest : List Symbol) : Json → Prop
  | null (hs : s = .char 'n') (hword : word ['u', 'l', 'l'] tail = .ok ((), rest)) :
      ScalarCase s tail rest .null
  | bool (hs : s ≠ .char 'n') (b : Bool) : ScalarCase s tail rest (.bool b)
  | number (hs : s ≠ .char 'n') (n : Number) : ScalarCase s tail rest (.number n)
  | string (hs : s ≠ .char 'n') (t : String) : ScalarCase s tail rest (.string t)

theorem leaves_scalar {s : Symbol} {read : Reader Json} (hscalar : scalar? s = some read)
    (tail : List Symbol) :
    Leaves read (s :: tail) fun j rest => ScalarCase s tail rest j := by
  unfold scalar? at hscalar
  split at hscalar
  next =>
    cases hscalar
    exact leaves_skip (Leaves.bind fun _ middle hword => leaves_pure (.null rfl hword))
  next =>
    cases hscalar
    exact leaves_skip (Leaves.bind fun _ _ _ => leaves_pure (.bool (by simp) true))
  next =>
    cases hscalar
    exact leaves_skip (Leaves.bind fun _ _ _ => leaves_pure (.bool (by simp) false))
  next =>
    cases hscalar
    exact Leaves.map fun t _ _ => .string (by simp) t
  next =>
    cases hscalar
    exact Leaves.map fun n _ _ => .number (by simp) n
  next hn _ _ _ _ =>
    split at hscalar
    next =>
      cases hscalar
      exact Leaves.map fun n _ _ => .number hn n
    next => cases hscalar

/-- What is not `null` is left to the decoder of the type. -/
theorem optional_ofTree_of_ne_null (d : Decoder α) (content : Content) {j : Json} (hj : j ≠ .null) :
    d.optional.ofTree content j = some <$> d.ofTree content j := by
  cases j with
  | null => exact absurd rfl hj
  | _ => rfl

theorem Agrees.optional {d : Decoder α} (h : d.Agrees) : d.optional.Agrees := by
  intro content depth text j rest htree a stop
  -- What does not start like `null` is no `null`, and is left to the decoder of the type.
  have hother : ∀ s tail, text.dropWhile isSpace = s :: tail → s ≠ .char 'n' → j ≠ .null →
      (d.optional.read depth text = .ok (a, stop) ↔
        d.optional.ofTree content j = .ok a ∧ rest = stop) := by
    intro s tail hsolid hs hj
    have hread : d.optional.read depth text = (some <$> d.read depth) (s :: tail) := by
      simp only [Decoder.optional]
      rw [bind_of_ok (peekSolid?_apply hsolid)]
      simp only [Option.some.injEq, hs, imp_self]
    rw [← tree_solid, hsolid] at htree
    rw [hread, optional_ofTree_of_ne_null d content hj, map_ok_iff, map_eq_ok_iff]
    have hagrees := h content depth _ j rest htree
    constructor
    · rintro ⟨b, hb, hsome⟩
      obtain ⟨hb, hstop⟩ := (hagrees b stop).mp hb
      exact ⟨⟨b, hb, hsome⟩, hstop⟩
    · rintro ⟨⟨b, hb, hsome⟩, hstop⟩
      exact ⟨b, (hagrees b stop).mpr ⟨hb, hstop⟩, hsome⟩
  cases leaves_tree _ _ _ _ htree with
  | scalar hsolid hscalar hread =>
      cases leaves_scalar hscalar _ _ _ hread with
      | null hs hword =>
          subst hs
          have hnull : d.optional.read depth text = .ok (none, rest) := by
            simp only [Decoder.optional]
            rw [bind_of_ok (peekSolid?_apply hsolid)]
            exact (bind_of_ok (skip_cons _ _)).trans (bind_of_ok hword)
          rw [hnull]
          constructor
          · rintro ⟨⟩
            exact ⟨rfl, rfl⟩
          · rintro ⟨⟨⟩, rfl⟩
            rfl
      | bool hs => exact hother _ _ hsolid hs (by simp)
      | number hs => exact hother _ _ hsolid hs (by simp)
      | string hs => exact hother _ _ hsolid hs (by simp)
  | array hsolid => exact hother _ _ hsolid (by simp) (by simp)
  | object hsolid => exact hother _ _ hsolid (by simp) (by simp)

/-! ## Elements -/

section Elements
variable {depth : Nat} {expected : String}

/-- A list that goes on has not ended. -/
theorem not_closeList_of_start {first : Bool} {text start stop : List Symbol}
    (hstart : Start ']' first text start) : closeList text ≠ .ok ((), stop) := by
  intro hclose
  have hclosing := leaves_closeList _ _ hclose
  cases hstart with
  | first hsolid hs =>
      cases hsolid.symm.trans hclosing
      exact hs rfl
  | next hsolid => cases hsolid.symm.trans hclosing

theorem closeList_of_closing {text rest : List Symbol}
    (hsolid : text.dropWhile isSpace = .char ']' :: rest) : closeList text = .ok ((), rest) :=
  bind_of_ok (peekSolid?_apply hsolid)

section Fields
variable {content : Content} {index : Nat} {f : Field} {fs : List Field} {value : f.Carrier}
  {row : Row fs} {text stop : List Symbol} {left : List Json}

/-- An element is for the first field, and what comes after it for the others. -/
theorem readElements_start_iff {start : List Symbol} (hstart : Start ']' (index == 0) text start) :
    readElements depth expected index (f :: fs) text = .ok ((value, row), stop) ↔
      ∃ after, f.decoder.read depth start = .ok (value, after) ∧
        readElements depth expected (index + 1) fs after = .ok (row, stop) := by
  simp only [readElements, pure_bind]
  constructor
  · intro h
    obtain ⟨found, after, hnext, hrest⟩ := bind_ok_iff.mp h
    rw [nextElement?_of_start hstart] at hnext
    obtain ⟨value, hvalue, rfl⟩ := map_ok_iff.mp hnext
    obtain ⟨row, _, hrow, ⟨⟩⟩ := bind_ok_iff.mp hrest
    exact ⟨after, hvalue, hrow⟩
  · rintro ⟨after, hvalue, hrow⟩
    rw [bind_of_ok ((nextElement?_of_start hstart _).trans (map_of_ok hvalue some))]
    exact bind_of_ok hrow

/-- Where the list ends the first field has to do without an element, as the others have. -/
theorem readElements_closing_iff {rest : List Symbol}
    (hsolid : text.dropWhile isSpace = .char ']' :: rest) :
    readElements depth expected index (f :: fs) text = .ok ((value, row), stop) ↔
      f.absentInList = some value ∧
        readElements depth expected (index + 1) fs (.char ']' :: rest) = .ok (row, stop) := by
  simp only [readElements, pure_bind]
  rw [bind_of_ok (nextElement?_of_closing hsolid _)]
  cases f.absentInList with
  | none =>
      constructor
      · rintro ⟨⟩
      · rintro ⟨⟨⟩, -⟩
  | some found =>
      constructor
      · intro h
        obtain ⟨row, _, hrow, ⟨⟩⟩ := bind_ok_iff.mp h
        exact ⟨rfl, hrow⟩
      · rintro ⟨⟨⟩, hrow⟩
        exact bind_of_ok hrow

theorem takeElements_cons_iff {item : Json} {items : List Json} :
    takeElements content expected index (f :: fs) (item :: items) = .ok ((value, row), left) ↔
      f.decoder.ofTree content item = .ok value ∧
        takeElements content expected (index + 1) fs items = .ok (row, left) := by
  simp only [takeElements]
  constructor
  · intro h
    obtain ⟨_, hvalue, hrest⟩ := bind_eq_ok_iff.mp h
    obtain ⟨_, hrow, ⟨⟩⟩ := bind_eq_ok_iff.mp hrest
    exact ⟨hvalue, hrow⟩
  · rintro ⟨hvalue, hrow⟩
    exact bind_eq_ok_iff.mpr ⟨value, hvalue, bind_eq_ok_iff.mpr ⟨_, hrow, rfl⟩⟩

theorem takeElements_nil_iff :
    takeElements content expected index (f :: fs) [] = .ok ((value, row), left) ↔
      f.absentInList = some value ∧
        takeElements content expected (index + 1) fs [] = .ok (row, left) := by
  simp only [takeElements]
  cases f.absentInList with
  | none =>
      constructor
      · rintro ⟨⟩
      · rintro ⟨⟨⟩, -⟩
  | some found =>
      constructor
      · intro h
        obtain ⟨_, ⟨⟩, hrest⟩ := bind_eq_ok_iff.mp h
        obtain ⟨_, hrow, ⟨⟩⟩ := bind_eq_ok_iff.mp hrest
        exact ⟨rfl, hrow⟩
      · rintro ⟨⟨⟩, hrow⟩
        exact bind_eq_ok_iff.mpr ⟨_, rfl, bind_eq_ok_iff.mpr ⟨_, hrow, rfl⟩⟩

theorem takeElements_end_iff {items : List Json} {row : Row []} :
    takeElements content expected index [] items = .ok (row, left) ↔ items = left := by
  constructor
  · rintro ⟨⟩
    rfl
  · rintro rfl
    rfl

end Fields

/-- The fields that are read from a list, with its end, are those that are taken from its items,
with none left over. -/
theorem readElements_iff {fs : List Field} (hfs : ∀ f ∈ fs, f.decoder.Agrees) (content : Content) :
    ∀ {index : Nat} {text rest : List Symbol} {items : List Json},
      Listed (fun i => within (.index i) (tree id depth)) index text items rest →
      ∀ row stop, (∃ middle, readElements depth expected index fs text = .ok (row, middle) ∧
          closeList middle = .ok ((), stop)) ↔
        takeElements content expected index fs items = .ok (row, []) ∧ rest = stop := by
  induction fs with
  | nil =>
      intro index text rest items hlisted row stop
      rw [takeElements_end_iff]
      cases hlisted with
      | nil hsolid =>
          constructor
          · rintro ⟨middle, ⟨⟩, hclose⟩
            cases (closeList_of_closing hsolid).symm.trans hclose
            exact ⟨rfl, rfl⟩
          · rintro ⟨-, rfl⟩
            exact ⟨text, rfl, closeList_of_closing hsolid⟩
      | cons hstart =>
          constructor
          · rintro ⟨middle, ⟨⟩, hclose⟩
            exact absurd hclose (not_closeList_of_start hstart)
          · rintro ⟨⟨⟩, -⟩
  | cons f fs ih =>
      intro index text rest items hlisted row stop
      obtain ⟨value, row⟩ := row
      have hrest : ∀ {after : List Symbol} {more : List Json},
          Listed (fun i => within (.index i) (tree id depth)) (index + 1) after more rest → _ :=
        fun hmore => ih (fun g hg => hfs g (List.mem_cons_of_mem f hg)) hmore row stop
      cases hlisted with
      | nil hsolid =>
          have hclosing : Listed (fun i => within (.index i) (tree id depth)) (index + 1)
              (.char ']' :: rest) [] rest := .nil rfl
          simp only [readElements_closing_iff hsolid, takeElements_nil_iff, and_assoc]
          rw [← hrest hclosing]
          constructor
          · rintro ⟨middle, habsent, hread, hclose⟩
            exact ⟨habsent, middle, hread, hclose⟩
          · rintro ⟨habsent, middle, hread, hclose⟩
            exact ⟨middle, habsent, hread, hclose⟩
      | cons hstart hitem hmore =>
          have hagrees := hfs f List.mem_cons_self content depth _ _ _ (within_ok.mp hitem)
          simp only [readElements_start_iff hstart, takeElements_cons_iff, and_assoc]
          rw [← hrest hmore]
          constructor
          · rintro ⟨middle, ⟨after, hvalue, hread⟩, hclose⟩
            obtain ⟨htaken, rfl⟩ := (hagrees value after).mp hvalue
            exact ⟨htaken, middle, hread, hclose⟩
          · rintro ⟨hvalue, middle, hread, hclose⟩
            exact ⟨middle, ⟨_, (hagrees value _).mpr ⟨hvalue, rfl⟩, hread⟩, hclose⟩

end Elements

/-! ## Members -/

section Members
variable {depth : Nat} {text middle rest : List Symbol} {j : Json}

/-- A field reads the member that it takes, and a name is that of a field or it is not. -/
inductive MemberCase {fs : List Field} (text rest : List Symbol) :
    Option (Reader (Slots fs)) → Option (Except Cause (Slots fs)) → Prop
  | unknown : MemberCase text rest none none
  | field {read : Reader (Slots fs)} {taken : Except Cause (Slots fs)}
      (hread : ∀ slots stop, read text = .ok (slots, stop) ↔ taken = .ok slots ∧ rest = stop) :
      MemberCase text rest (some read) (some taken)

theorem memberCase (hcolon : colon text = .ok ((), middle))
    (htree : tree id depth middle = .ok (j, rest)) (content : Content) (name : String)
    {fs : List Field} (hfs : ∀ f ∈ fs, f.decoder.Agrees) (slots : Slots fs) :
    MemberCase text rest (slots.readMember depth name) (slots.takeMember content name j) := by
  induction fs with
  | nil => exact .unknown
  | cons f fs ih =>
      obtain ⟨slot, slots⟩ := slots
      rw [Slots.readMember, Slots.takeMember]
      by_cases hname : f.name = name
      · rw [if_pos hname, if_pos hname]
        refine .field fun filled stop => ?_
        cases slot with
        | some value =>
            constructor
            · rintro ⟨⟩
            · rintro ⟨⟨⟩, -⟩
        | none =>
            have hagrees := hfs f List.mem_cons_self content depth middle j rest htree
            constructor
            · intro hread
              obtain ⟨_, start, hstart, hvalue⟩ := bind_ok_iff.mp hread
              cases hcolon.symm.trans hstart
              obtain ⟨value, _, hvalue, ⟨⟩⟩ := bind_ok_iff.mp hvalue
              obtain ⟨htake, hstop⟩ := (hagrees value stop).mp hvalue
              refine ⟨?_, hstop⟩
              exact bind_eq_ok_iff.mpr ⟨value, htake, rfl⟩
            · rintro ⟨hfilled, hstop⟩
              obtain ⟨value, htake, ⟨⟩⟩ := bind_eq_ok_iff.mp hfilled
              have hvalue := (hagrees value stop).mpr ⟨htake, hstop⟩
              exact (bind_of_ok hcolon).trans (bind_of_ok hvalue)
      · rw [if_neg hname, if_neg hname]
        have hcase := ih (fun g hg => hfs g (List.mem_cons_of_mem f hg)) slots
        generalize slots.readMember depth name = read? at hcase ⊢
        generalize slots.takeMember content name j = taken? at hcase ⊢
        cases hcase with
        | unknown => exact .unknown
        | field hread =>
            refine .field fun filled stop => ?_
            constructor
            · intro h
              obtain ⟨slots', hslots', hfilled⟩ := map_ok_iff.mp h
              obtain ⟨htake, hstop⟩ := (hread slots' stop).mp hslots'
              exact ⟨map_eq_ok_iff.mpr ⟨slots', htake, hfilled⟩, hstop⟩
            · rintro ⟨h, hstop⟩
              obtain ⟨slots', htake, hfilled⟩ := map_eq_ok_iff.mp h
              exact map_ok_iff.mpr ⟨slots', (hread slots' stop).mpr ⟨htake, hstop⟩, hfilled⟩

theorem readMembers_iff {fs : List Field} (hfs : ∀ f ∈ fs, f.decoder.Agrees) (content : Content)
    (fuel : Nat) : ∀ {first : Bool} {text middle : List Symbol} {ms : List (String × Json)},
      members Reader.string (fun name => do colon; within (.key name) (tree id depth)) first fuel
        text = .ok (ms, middle) →
      ∀ (slots filled : Slots fs) stop,
        (∃ skipped, readMembers depth (fun _ => do colon; skipValue) first fuel slots text =
          .ok ((filled, skipped), stop)) ↔
        (∃ others, takeMembers content slots ms = .ok (filled, others)) ∧ middle = stop := by
  induction fuel with
  | zero =>
      rintro first text middle ms ⟨⟩ slots filled stop
      constructor
      · rintro ⟨skipped, ⟨⟩⟩
        exact ⟨⟨[], rfl⟩, rfl⟩
      · rintro ⟨⟨others, ⟨⟩⟩, rfl⟩
        exact ⟨[], rfl⟩
  | succ fuel ih =>
      intro first text middle ms h slots filled stop
      obtain ⟨name?, after, hnext, hmore⟩ := bind_ok_iff.mp h
      rw [readMembers, bind_of_ok hnext]
      cases name? with
      | none =>
          cases hmore
          constructor
          · rintro ⟨skipped, ⟨⟩⟩
            exact ⟨⟨[], rfl⟩, rfl⟩
          · rintro ⟨⟨others, ⟨⟩⟩, rfl⟩
            exact ⟨[], rfl⟩
      | some name =>
          obtain ⟨j, behind, hmember, hthen⟩ := bind_ok_iff.mp hmore
          obtain ⟨more, hmembers, rfl⟩ := map_ok_iff.mp hthen
          obtain ⟨_, start, hcolon, htree⟩ := bind_ok_iff.mp hmember
          have hcase := memberCase hcolon (within_ok.mp htree) content name hfs slots
          rw [takeMembers]
          dsimp only
          generalize slots.readMember depth name = read? at hcase ⊢
          generalize slots.takeMember content name j = taken? at hcase ⊢
          cases hcase with
          | unknown =>
              have hskip : (do colon; skipValue : Reader Unit) after = .ok ((), behind) :=
                (bind_of_ok hcolon).trans (skipValue_passes id depth _ _ _ (within_ok.mp htree))
              dsimp only
              rw [bind_of_ok hskip]
              have hrest := ih hmembers slots filled stop
              constructor
              · rintro ⟨skipped, hread⟩
                obtain ⟨⟨_, others⟩, _, hothers, ⟨⟩⟩ := bind_ok_iff.mp hread
                obtain ⟨⟨others, htake⟩, hstop⟩ := hrest.mp ⟨_, hothers⟩
                exact ⟨⟨_, bind_eq_ok_iff.mpr ⟨_, htake, rfl⟩⟩, hstop⟩
              · rintro ⟨⟨others, htake⟩, hstop⟩
                obtain ⟨⟨_, more⟩, hothers, ⟨⟩⟩ := bind_eq_ok_iff.mp htake
                obtain ⟨skipped, hread⟩ := hrest.mpr ⟨⟨more, hothers⟩, hstop⟩
                exact ⟨_, bind_ok_iff.mpr ⟨_, _, hread, rfl⟩⟩
          | field hread =>
              constructor
              · rintro ⟨skipped, hmember⟩
                obtain ⟨slots', _, hslots', hothers⟩ := bind_ok_iff.mp hmember
                obtain ⟨htake, rfl⟩ := (hread _ _).mp hslots'
                obtain ⟨⟨others, hothers⟩, hstop⟩ :=
                  (ih hmembers slots' filled stop).mp ⟨_, hothers⟩
                exact ⟨⟨others, bind_eq_ok_iff.mpr ⟨slots', htake, hothers⟩⟩, hstop⟩
              · rintro ⟨⟨others, htake⟩, hstop⟩
                obtain ⟨slots', htake, hothers⟩ := bind_eq_ok_iff.mp htake
                obtain ⟨skipped, hskipped⟩ :=
                  (ih hmembers slots' filled stop).mpr ⟨⟨others, hothers⟩, hstop⟩
                exact ⟨skipped, bind_ok_iff.mpr ⟨slots', behind, (hread _ _).mpr ⟨htake, rfl⟩,
                  hskipped⟩⟩

end Members

/-! ## Records -/

theorem finish_ok {fs : List Field} {slots : Slots fs} {row : Row fs} {text stop : List Symbol} :
    finish slots text = .ok (row, stop) ↔ slots.complete = .ok row ∧ text = stop := by
  rw [finish]
  cases slots.complete with
  | ok row' =>
      constructor
      · rintro ⟨⟩
        exact ⟨rfl, rfl⟩
      · rintro ⟨⟨⟩, rfl⟩
        rfl
  | error cause =>
      constructor
      · rintro ⟨⟩
      · rintro ⟨⟨⟩, -⟩

/-- A list is taken as a record if its items are the fields in order. -/
theorem takeRecord_array_iff {fs : List Field} {expected whole : String} {content : Content}
    {items : List Json} {row : Row fs} :
    takeRecord expected whole fs content (.array items) = .ok row ↔
      takeElements content whole 0 fs items = .ok (row, []) := by
  rw [takeRecord, bind_eq_ok_iff]
  constructor
  · rintro ⟨⟨row', rest⟩, htake, hend⟩
    cases rest with
    | nil =>
        cases hend
        exact htake
    | cons item rest => cases hend
  · exact fun htake => ⟨_, htake, rfl⟩

theorem takeRecord_object_iff {fs : List Field} {expected whole : String} {content : Content}
    {ms : List (String × Json)} {row : Row fs} :
    takeRecord expected whole fs content (.object ms) = .ok row ↔
      ∃ slots, (∃ others, takeMembers content (Slots.empty fs) ms = .ok (slots, others)) ∧
        slots.complete = .ok row := by
  rw [takeRecord, bind_eq_ok_iff]
  constructor
  · rintro ⟨⟨slots, others⟩, htake, hcomplete⟩
    exact ⟨slots, ⟨others, htake⟩, hcomplete⟩
  · rintro ⟨slots, ⟨others, htake⟩, hcomplete⟩
    exact ⟨⟨slots, others⟩, htake, hcomplete⟩

/-- A record is read from what starts with a bracket or a brace. -/
theorem leaves_readRecord {fs : List Field} {expected whole : String} {depth : Nat}
    {text : List Symbol} : Leaves (readRecord expected whole fs depth) text fun _ _ =>
      ∃ s ∈ (text.dropWhile isSpace).head?, s = .char '[' ∨ s = .char '\x7b' := by
  refine leaves_peekSolid ?_
  split
  next => exact leaves_failNext _
  next hhead => exact fun _ _ _ => ⟨_, hhead, .inl rfl⟩
  next hhead => exact fun _ _ _ => ⟨_, hhead, .inr rfl⟩
  next => exact leaves_mismatch _ _ _

theorem readRecord_iff {fs : List Field} (hfs : ∀ f ∈ fs, f.decoder.Agrees)
    {expected whole : String} (content : Content) {depth : Nat} {text rest : List Symbol} {j : Json}
    (htree : tree id depth text = .ok (j, rest)) (row : Row fs) (stop : List Symbol) :
    readRecord expected whole fs depth text = .ok (row, stop) ↔
      takeRecord expected whole fs content j = .ok row ∧ rest = stop := by
  cases leaves_tree _ _ _ _ htree with
  | @scalar s tail _ _ _ hsolid hscalar hread =>
      have hlist : s ≠ .char '[' := by rintro rfl; cases hscalar
      have hobject : s ≠ .char '\x7b' := by rintro rfl; cases hscalar
      have htake : takeRecord expected whole fs content j =
          .error (.wrongType (found j) expected) := by
        cases leaves_scalar hscalar _ _ _ hread <;> rfl
      rw [readRecord, bind_of_ok (peekSolid?_apply hsolid), htake]
      simp only []
      constructor
      · intro h
        exact (leaves_mismatch (P := fun _ _ => False) expected _ _ row stop h).elim
      · rintro ⟨⟨⟩, -⟩
  | array hsolid hdepth hitems =>
      subst hdepth
      rw [readRecord, bind_of_ok (peekSolid?_apply hsolid), takeRecord_array_iff]
      refine Iff.trans ?_ (readElements_iff hfs content hitems row stop)
      exact container_ok_iff
  | object hsolid hdepth hmembers hclose =>
      subst hdepth
      rw [readRecord, bind_of_ok (peekSolid?_apply hsolid), takeRecord_object_iff]
      refine Iff.trans container_ok_iff ?_
      have hmembers' := readMembers_iff hfs content _ hmembers (Slots.empty fs)
      constructor
      · rintro ⟨behind, hbody, hclose'⟩
        obtain ⟨_, _, ⟨⟩, hbody⟩ := bind_ok_iff.mp hbody
        obtain ⟨⟨slots, skipped⟩, _, hread, hfinish⟩ := bind_ok_iff.mp hbody
        obtain ⟨hcomplete, rfl⟩ := finish_ok.mp hfinish
        obtain ⟨htake, rfl⟩ := (hmembers' slots _).mp ⟨skipped, hread⟩
        cases hclose.symm.trans hclose'
        exact ⟨⟨slots, htake, hcomplete⟩, rfl⟩
      · rintro ⟨⟨slots, htake, hcomplete⟩, rfl⟩
        obtain ⟨skipped, hread⟩ := (hmembers' slots _).mpr ⟨htake, rfl⟩
        refine ⟨_, ?_, hclose⟩
        exact (bind_of_ok (x := remaining) rfl).trans
          ((bind_of_ok hread).trans (finish_ok.mpr ⟨hcomplete, rfl⟩))

theorem agrees_record {fs : List Field} (hfs : ∀ f ∈ fs, f.decoder.Agrees) (name : String)
    (build : Row fs → α) : (record name fs build).Agrees := by
  intro content depth text j rest htree a stop
  constructor
  · intro h
    obtain ⟨row, hread, hbuild⟩ := map_ok_iff.mp h
    obtain ⟨htake, hstop⟩ := (readRecord_iff hfs content htree row stop).mp hread
    exact ⟨map_eq_ok_iff.mpr ⟨row, htake, hbuild⟩, hstop⟩
  · rintro ⟨h, hstop⟩
    obtain ⟨row, htake, hbuild⟩ := map_eq_ok_iff.mp h
    have hread := (readRecord_iff hfs content htree row stop).mpr ⟨htake, hstop⟩
    exact map_ok_iff.mpr ⟨row, hread, hbuild⟩

/-! ## Whole texts -/

/-- Reads a whole text as a tree whose objects have their members as they came. -/
def plain (text : List Symbol) : Except Problem Json := run (tree id) text

/-- What is read from a whole text is what is taken from its tree, if it has one. -/
theorem Agrees.decode_iff {d : Decoder α} (h : d.Agrees) {text : List Symbol} {j : Json}
    (htree : plain text = .ok j) (content : Content) (a : α) :
    d.decode text = .ok a ↔ d.ofTree content j = .ok a := by
  obtain ⟨rest, hread, hblank⟩ := run_ok_iff.mp htree
  have hagrees := h content depthLimit text j rest hread a
  rw [decode, run_ok_iff]
  constructor
  · rintro ⟨stop, hstop, -⟩
    exact ((hagrees stop).mp hstop).1
  · exact fun htake => ⟨rest, (hagrees rest).mpr ⟨htake, rfl⟩, hblank⟩

end Decoder
end WalletEngine.Json
