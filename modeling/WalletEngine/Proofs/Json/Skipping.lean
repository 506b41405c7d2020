import Mathlib.Data.List.DropRight
import WalletEngine.Proofs.Json.SkippedScalars

/-! # Passing over values

Containers are passed over with a list of those that are open, where a tree is read by recursion. A
value is passed over if, inside whatever containers, the loop goes on behind it with as many steps
left as the rest of the text may need.
-/

namespace WalletEngine.Json.Reader
open Steps

variable {α : Type}

/-- Goes on inside containers, behind a value or behind an opening bracket. -/
def resume (afterItem : Bool) (fuel : Nat) (frames : List Frame) : Reader Unit := do
  match ← skipClosing afterItem frames with
  | [] => pure ()
  | frame :: outer =>
    skipName frame
    skipOpen fuel (frame :: outer)

/-- Passing over one value, behind what stands before it, takes the reader from one text to another,
whatever containers it is in. -/
def Over (before : Reader Unit) (text rest : List Symbol) : Prop :=
  ∀ fuel frames, text.length < fuel → ∃ left, rest.length < left ∧
    (do before; skipOpen fuel frames : Reader Unit) text = resume true left frames rest

theorem skipOpen_of_start {text rest : List Symbol} {opened : Option Frame}
    (h : skipStart text = .ok (opened, rest)) (fuel : Nat) (frames : List Frame) :
    skipOpen (fuel + 1) frames text =
      resume opened.isNone fuel (opened.toList ++ frames) rest := by
  rw [skipOpen, bind_of_ok h]
  rfl

/-- A container that is read is passed over: item by item, up to and with its closing bracket. -/
inductive Items (f : Frame) : Bool → List Symbol → List Symbol → Prop
  | close {afterItem : Bool} {text rest : List Symbol}
      (hsolid : text.dropWhile isSpace = .char f.closing :: rest) : Items f afterItem text rest
  | first {s : Symbol} {text tail middle rest : List Symbol}
      (hsolid : text.dropWhile isSpace = s :: tail) (hs : s ≠ .char f.closing)
      (hitem : Over (skipName f) (s :: tail) middle) (hrest : Items f true middle rest) :
      Items f false text rest
  | next {text tail middle rest : List Symbol}
      (hsolid : text.dropWhile isSpace = .char ',' :: tail)
      (hitem : Over (skipName f) tail middle) (hrest : Items f true middle rest) :
      Items f true text rest

theorem length_solid {s : Symbol} {text tail : List Symbol}
    (h : text.dropWhile isSpace = s :: tail) : tail.length < text.length := by
  have hlength := (List.dropWhile_sublist isSpace (l := text)).length_le
  rw [h] at hlength
  exact hlength

theorem Items.resume {f : Frame} {afterItem : Bool} {text rest : List Symbol}
    (h : Items f afterItem text rest) : ∀ fuel frames, text.length < fuel →
      ∃ left, rest.length < left ∧
        resume afterItem fuel (f :: frames) text = resume true left frames rest := by
  have hcomma : f.closing ≠ ',' := by cases f <;> decide
  induction h with
  | close hsolid =>
      intro fuel frames hfuel
      refine ⟨fuel, Nat.lt_trans (length_solid hsolid) hfuel, ?_⟩
      rw [Reader.resume, skipClosing, bind_assoc, bind_of_ok (peekSolid?_apply hsolid)]
      simp only [Symbol.char.injEq, hcomma, decide_false, Bool.false_and, Bool.false_eq_true,
        if_false, if_true]
      rfl
  | @first s text tail middle rest hsolid hs hitem hrest ih =>
      intro fuel frames hfuel
      have hstart : Reader.resume false fuel (f :: frames) text =
          (do skipName f; skipOpen fuel (f :: frames) : Reader Unit) (s :: tail) := by
        rw [Reader.resume, skipClosing, bind_assoc, bind_of_ok (peekSolid?_apply hsolid)]
        simp only [Bool.and_false, Bool.false_eq_true, if_false, hs]
        rfl
      have hlength := length_solid hsolid
      obtain ⟨left, hleft, hover⟩ :=
        hitem fuel (f :: frames) (by simp only [List.length_cons]; omega)
      obtain ⟨left', hleft', hresume⟩ := ih left frames hleft
      exact ⟨left', hleft', hstart.trans (hover.trans hresume)⟩
  | @next text tail middle rest hsolid hitem hrest ih =>
      intro fuel frames hfuel
      have hstart : Reader.resume true fuel (f :: frames) text =
          (do skipName f; skipOpen fuel (f :: frames) : Reader Unit) tail := by
        rw [Reader.resume, skipClosing, bind_assoc, bind_of_ok (peekSolid?_apply hsolid)]
        simp only [decide_true, Bool.and_true, if_true]
        rfl
      obtain ⟨left, hleft, hover⟩ :=
        hitem fuel (f :: frames) (Nat.lt_trans (length_solid hsolid) hfuel)
      obtain ⟨left', hleft', hresume⟩ := ih left frames hleft
      exact ⟨left', hleft', hstart.trans (hover.trans hresume)⟩

/-- A scalar is passed over. -/
theorem over_scalar {s : Symbol} {read : Reader Json} {text tail rest : List Symbol}
    {j : Json} (hsolid : text.dropWhile isSpace = s :: tail) (hscalar : scalar? s = some read)
    (hread : read (s :: tail) = .ok (j, rest)) : Over (pure ()) text rest := by
  intro fuel frames hfuel
  obtain ⟨hstart, hlength⟩ := skipStart_of_scalar hsolid hscalar hread
  obtain ⟨fuel, rfl⟩ := Nat.exists_eq_succ_of_ne_zero (Nat.ne_zero_of_lt hfuel)
  have htail := length_solid hsolid
  refine ⟨fuel, by omega, ?_⟩
  exact skipOpen_of_start hstart fuel frames

/-- A container is passed over once its items are. -/
theorem over_container {f : Frame} {text tail rest : List Symbol}
    (hstart : skipStart text = .ok (some f, tail)) (hlength : tail.length < text.length)
    (hitems : Items f false tail rest) : Over (pure ()) text rest := by
  intro fuel frames hfuel
  obtain ⟨fuel, rfl⟩ := Nat.exists_eq_succ_of_ne_zero (Nat.ne_zero_of_lt hfuel)
  obtain ⟨left, hleft, hresume⟩ := hitems.resume fuel frames (by omega)
  exact ⟨left, hleft, (skipOpen_of_start hstart fuel frames).trans hresume⟩

/-- Blanks in front of an item are passed over with it. -/
theorem Over.solid {f : Frame} {text rest : List Symbol}
    (h : Over (skipName f) (text.dropWhile isSpace) rest) : Over (skipName f) text rest := by
  have hpeek : peekSolid? (text.dropWhile isSpace) = peekSolid? text := by
    simp only [peekSolid?, List.dropWhile_idempotent]
  intro fuel frames hfuel
  have hlength := (List.dropWhile_sublist isSpace (l := text)).length_le
  obtain ⟨left, hleft, hover⟩ := h fuel frames (by omega)
  refine ⟨left, hleft, ?_⟩
  rw [← hover]
  cases f with
  | list =>
      obtain ⟨fuel, rfl⟩ := Nat.exists_eq_succ_of_ne_zero (Nat.ne_zero_of_lt hfuel)
      have hstart : skipStart (text.dropWhile isSpace) = skipStart text := by
        rw [skipStart, bind_apply, bind_apply, hpeek]
      change skipOpen (fuel + 1) frames text = skipOpen (fuel + 1) frames (text.dropWhile isSpace)
      rw [skipOpen, bind_apply, bind_apply, hstart]
  | object =>
      have hname : skipName .object (text.dropWhile isSpace) = skipName .object text := by
        rw [skipName, bind_apply, bind_apply, hpeek]
      rw [bind_apply, bind_apply, hname]

theorem Items.of_start {f : Frame} {first : Bool} {text start middle rest : List Symbol}
    (hstart : Start f.closing first text start) (hitem : Over (skipName f) start middle)
    (hrest : Items f true middle rest) : Items f (!first) text rest := by
  cases hstart with
  | first hsolid hs => exact .first hsolid hs hitem hrest
  | next hsolid hnext _ => exact .next hsolid (hnext ▸ hitem).solid hrest

/-- Elements that are read are passed over. -/
theorem items_of_listed {element : Nat → Reader α}
    (helement : ∀ i text a rest, element i text = .ok (a, rest) → Over (pure ()) text rest)
    {index : Nat} {text rest : List Symbol} {as : List α} (h : Listed element index text as rest) :
    Items .list (!(index == 0)) text rest := by
  induction h with
  | nil hsolid => exact .close hsolid
  | cons hstart ha _ ih => exact .of_start hstart (helement _ _ _ _ ha) ih

theorem shrinks_peekSolid : Shrinks peekSolid? := by
  rintro text _ _ ⟨⟩
  exact (List.dropWhile_sublist _).length_le

theorem shrinks_colon : Shrinks colon := by
  refine shrinks_peekSolid.bind fun s? => ?_
  split
  next => exact shrinks_skip
  next => exact shrinks_failNext _
  next => exact shrinks_failNext _

/-- The name and the value of a member are passed over. -/
theorem over_member {name : String} {text after middle rest : List Symbol}
    (hname : string (.char '"' :: text) = .ok (name, after))
    (hcolon : colon after = .ok ((), middle)) (hvalue : Over (pure ()) middle rest) :
    Over (skipName .object) (.char '"' :: text) rest := by
  have hstring := string_passes _ _ _ hname
  rw [bind_of_ok (skip_cons _ _), bind_of_ok (x := remaining) rfl] at hstring
  have hover : skipName .object (.char '"' :: text) = .ok ((), middle) := by
    refine (bind_of_ok (peekSolid?_char (by decide) text)).trans ?_
    refine (bind_of_ok (skip_cons _ _)).trans ((bind_of_ok (x := remaining) rfl).trans ?_)
    exact (bind_of_ok hstring).trans hcolon
  have hshort := shrinks_skipString _ _ _ _ hstring
  have hshorter := shrinks_colon _ _ _ hcolon
  intro fuel frames hfuel
  rw [bind_of_ok hover]
  exact hvalue fuel frames (by simp only [List.length_cons] at hfuel; omega)

/-- Members that are read are passed over. -/
theorem items_members {member : String → Reader α}
    (hmember : ∀ name text a rest, member name text = .ok (a, rest) →
      ∃ middle, colon text = .ok ((), middle) ∧ Over (pure ()) middle rest)
    (fuel : Nat) : ∀ {first text ms middle rest},
      members string member first fuel text = .ok (ms, middle) →
      closeObject middle = .ok ((), rest) → Items .object (!first) text rest := by
  induction fuel with
  | zero =>
      rintro first text ms middle rest ⟨⟩ hclose
      exact .close (leaves_closeObject _ _ hclose)
  | succ fuel ih =>
      intro first text ms middle rest h hclose
      obtain ⟨name?, after, hnext, hmore⟩ := bind_ok_iff.mp h
      have hfound := leaves_nextName _ _ _ hnext
      cases name? with
      | none =>
          obtain ⟨rest', hsolid, rfl⟩ := hfound
          cases hmore
          cases hclose
          exact .close hsolid
      | some name =>
          obtain ⟨s, start, rfl, hstart, hname⟩ := hfound
          obtain ⟨a, behind, ha, hmore⟩ := bind_ok_iff.mp hmore
          obtain ⟨ms, hms, -⟩ := map_ok_iff.mp hmore
          obtain ⟨value, hcolon, hvalue⟩ := hmember _ _ _ _ ha
          exact .of_start hstart (over_member hname hcolon hvalue) (ih hms hclose)

/-- Whatever tree is read, its text is passed over. -/
theorem over_tree (arrange : List (String × Json) → List (String × Json)) (depth : Nat) :
    ∀ {text j rest}, tree arrange depth text = .ok (j, rest) → Over (pure ()) text rest := by
  induction depth with
  | zero =>
      intro text j rest h
      cases leaves_tree _ _ _ _ h with
      | scalar hsolid hscalar hread => exact over_scalar hsolid hscalar hread
      | array _ hdepth => cases hdepth
      | object _ hdepth => cases hdepth
  | succ depth ih =>
      intro text j rest h
      cases leaves_tree _ _ _ _ h with
      | scalar hsolid hscalar hread => exact over_scalar hsolid hscalar hread
      | @array tail _ _ _ hsolid hdepth hitems =>
          cases hdepth
          have hstart : skipStart text = .ok (some .list, tail) :=
            (bind_of_ok (peekSolid?_apply hsolid)).trans (bind_of_ok (skip_cons _ _))
          refine over_container hstart (length_solid hsolid) ?_
          exact items_of_listed (fun i text a rest ha => ih (within_ok.mp ha)) hitems
      | @object tail _ _ _ _ hsolid hdepth hmembers hclose =>
          cases hdepth
          have hstart : skipStart text = .ok (some .object, tail) :=
            (bind_of_ok (peekSolid?_apply hsolid)).trans (bind_of_ok (skip_cons _ _))
          refine over_container hstart (length_solid hsolid) ?_
          refine items_members (fun name text a rest ha => ?_) _ hmembers hclose
          obtain ⟨_, middle, hcolon, hvalue⟩ := bind_ok_iff.mp ha
          exact ⟨middle, hcolon, ih (within_ok.mp hvalue)⟩

/-- Whatever tree is read, the reader that passes over values stops where it ends. -/
theorem skipValue_passes (arrange : List (String × Json) → List (String × Json)) (depth : Nat) :
    Passes skipValue (tree arrange depth) := by
  intro text j rest h
  obtain ⟨left, -, hover⟩ := over_tree arrange depth h _ [] (Nat.lt_succ_self _)
  exact (bind_of_ok (x := remaining) rfl).trans hover

end WalletEngine.Json.Reader
