import WalletEngine.Json.Record
import WalletEngine.Proofs.Json.Floats

/-! # What a reader may answer

Whatever text is read, the values that come out of it are within bounds: a float is finite, and each
value of a record comes from the decoder of its field or is the value for its absence.
-/

namespace WalletEngine.Json

open Steps Binary64

namespace Reader
variable {α β : Type}

/-- Every answer of the reader has the property. -/
def Gives (read : Reader α) (P : α → Prop) : Prop :=
  ∀ text a rest, read text = .ok (a, rest) → P a

theorem gives_self (read : Reader α) :
    Gives read fun a => ∃ text rest, read text = .ok (a, rest) :=
  fun text _ rest h => ⟨text, rest, h⟩

theorem gives_any (read : Reader α) : Gives read fun _ => True := fun _ _ _ _ => trivial

theorem gives_pure {P : α → Prop} {a : α} (h : P a) : Gives (pure a) P := by
  rintro text b rest ⟨⟩
  exact h

theorem gives_failHere (P : α → Prop) (cause : Cause) : Gives (failHere cause) P := by
  rintro text b rest ⟨⟩

theorem gives_failNext (P : α → Prop) (cause : Cause) : Gives (failNext cause) P := by
  rintro text b rest ⟨⟩

theorem gives_failWithin (P : α → Prop) (cause : Cause) : Gives (failWithin cause) P := by
  rintro text b rest ⟨⟩

theorem Gives.bind {read : Reader α} {next : α → Reader β} {P : α → Prop} {Q : β → Prop}
    (hread : Gives read P) (hnext : ∀ a, P a → Gives (next a) Q) : Gives (read >>= next) Q := by
  intro text b rest h
  rw [bind_apply] at h
  -- A failure of the first reader is one of the whole, which has no answer then.
  cases hfirst : read text with
  | error fault =>
      rw [hfirst] at h
      cases h
  | ok result =>
      obtain ⟨a, tail⟩ := result
      rw [hfirst] at h
      exact hnext a (hread _ _ _ hfirst) _ _ _ h

theorem Gives.map {read : Reader α} {f : α → β} {P : α → Prop} {Q : β → Prop}
    (hread : Gives read P) (hf : ∀ a, P a → Q (f a)) : Gives (f <$> read) Q := by
  rw [← bind_pure_comp]
  exact hread.bind fun a ha => gives_pure (hf a ha)

/-! ## Numbers -/

theorem absorb_lt (ds : List Symbol) {n : Nat} (hn : n < UInt64.size) :
    (absorb n ds).1 < UInt64.size := by
  induction ds generalizing n with
  | nil => exact hn
  | cons d ds ih =>
      rw [absorb]
      split
      next hfit => exact ih hfit
      next => exact hn

/-- A number as it may be read: an integer of about 64 bits, or a finite float. -/
def InRange : Number → Prop
  | .integer n => n.natAbs ≤ UInt64.size
  | .float x => x.isFinite = true

theorem isFinite_of_scale? {significand : Nat} {exponent : Int} {x : Binary64}
    (hfit : significand < UInt64.size) (h : scale? significand exponent = some x) :
    x.isFinite = true := by
  by_cases hneg : exponent < 0
  · obtain ⟨y, hy, hfinite⟩ := scale?_of_neg hfit hneg
    rw [h] at hy
    cases hy
    exact hfinite
  · rw [scale?, if_neg hneg] at h
    split at h
    next hzero =>
      cases h
      rw [hzero]
      exact zero_isFinite false
    next =>
    split at h
    next => cases h
    next =>
    dsimp only at h
    split at h
    next hfinite =>
      cases h
      exact hfinite
    next => cases h

theorem gives_scaled {negative : Bool} {significand : Nat} {exponent : Int}
    (hfit : significand < UInt64.size) : Gives (scaled negative significand exponent) InRange := by
  unfold scaled
  split
  next x hscale =>
    refine gives_pure ?_
    have hfinite := isFinite_of_scale? hfit hscale
    cases negative with
    | false => exact hfinite
    | true => exact isFinite_negate hfinite
  next => exact gives_failHere _ _

theorem gives_withExponent {negative : Bool} {significand : Nat} {start : Int}
    (hfit : significand < UInt64.size) :
    Gives (withExponent negative significand start) InRange := by
  unfold withExponent
  refine (gives_any _).bind fun _ _ => (gives_any _).bind fun _ _ => ?_
  extract_lets afterSign
  have hafterSign : ∀ below, Gives (afterSign below) InRange := by
    intro below
    refine (gives_any _).bind fun _ _ => ?_
    extract_lets afterDigit
    have hafterDigit : ∀ u, Gives (afterDigit u) InRange := by
      intro u
      refine (gives_any _).bind fun ds _ => ?_
      split
      next => exact gives_scaled hfit
      next =>
      split
      next => rintro text n rest ⟨⟩
      next => exact gives_pure (zero_isFinite negative)
    split
    next => exact (gives_any _).bind fun u _ => hafterDigit u
    next =>
    split
    next => exact (gives_any _).bind fun u _ => hafterDigit u
    next => exact hafterDigit ()
  split
  next => exact (gives_any _).bind fun _ _ => (gives_any _).bind fun below _ => hafterSign below
  next => exact (gives_any _).bind fun _ _ => (gives_any _).bind fun below _ => hafterSign below
  next => exact (gives_any _).bind fun below _ => hafterSign below

theorem gives_optionalExponent {negative : Bool} {significand : Nat} {start : Int}
    (hfit : significand < UInt64.size) :
    Gives (optionalExponent negative significand start) InRange := by
  refine (gives_any _).bind fun _ _ => ?_
  split
  next => exact gives_withExponent hfit
  next => exact gives_withExponent hfit
  next => exact gives_scaled hfit

theorem gives_withFraction {negative : Bool} {significand : Nat} {start : Int}
    (hfit : significand < UInt64.size) :
    Gives (withFraction negative significand start) InRange := by
  refine (gives_any _).bind fun _ _ => (gives_any _).bind fun ds _ => ?_
  split
  next whole unread habsorb =>
  have hwhole : whole < UInt64.size := by
    have hlt := absorb_lt ds hfit
    rwa [habsorb] at hlt
  extract_lets afterDigits
  have hafterDigits : ∀ u, Gives (afterDigits u) InRange :=
    fun _ => gives_optionalExponent hwhole
  split
  next =>
    refine (gives_any _).bind fun _ _ => ?_
    split
    next => exact (gives_any _).bind fun u _ => hafterDigits u
    next => exact (gives_any _).bind fun u _ => hafterDigits u
  next => exact hafterDigits ()

/-- A natural of about 64 bits is far from the overflow bound. -/
theorem isFinite_ofNatural {n : Nat} (hn : n ≤ UInt64.size) (negative : Bool) :
    (ofRatio negative n 1).isFinite = true := by
  have hle : n ≤ 2 ^ 65 := hn.trans (by decide)
  have hcast : (n : ℚ) ≤ 2 ^ 65 := by exact_mod_cast hle
  have hfit : (n : ℚ) / (1 : Nat) < overflow := by
    rw [Nat.cast_one, div_one]
    exact hcast.trans_lt two_pow_lt_overflow
  exact (ofRatio_size_le one_ne_zero hfit negative).1

theorem integral_inRange (negative : Bool) {significand : Nat} (hfit : significand < UInt64.size) :
    InRange (integral negative significand) := by
  unfold integral
  split
  next => exact Nat.le_of_lt hfit
  next =>
  split
  next => exact isFinite_ofNatural (Nat.le_of_lt hfit) true
  next =>
    change (-(significand : Int)).natAbs ≤ UInt64.size
    rw [Int.natAbs_neg, Int.natAbs_natCast]
    exact Nat.le_of_lt hfit

theorem gives_number (negative : Bool) : Gives (number negative) InRange := by
  unfold number
  refine (gives_any _).bind fun _ _ => ?_
  extract_lets afterSign
  have hafterSign : ∀ u, Gives (afterSign u) InRange := by
    intro u
    refine (gives_any _).bind fun ds _ => ?_
    extract_lets afterDigits
    have hafterDigits : ∀ u, Gives (afterDigits u) InRange := by
      intro u
      have hwhole := absorb_lt ds (by decide : 0 < UInt64.size)
      refine (gives_any _).bind fun _ _ => ?_
      split
      next => exact gives_withFraction hwhole
      next => exact gives_withExponent hwhole
      next => exact gives_withExponent hwhole
      next =>
      split
      next => exact gives_pure (integral_inRange negative hwhole)
      next => exact gives_scaled hwhole
    split
    next =>
      refine (gives_any _).bind fun _ _ => ?_
      split
      next => exact (gives_any _).bind fun u _ => hafterDigits u
      next => exact hafterDigits ()
    next => exact hafterDigits ()
  split
  next => exact (gives_any _).bind fun u _ => hafterSign u
  next =>
  split
  next => exact (gives_any _).bind fun u _ => hafterSign u
  next => exact hafterSign ()

/-- No number out of range is in front of a scalar. -/
theorem gives_scalar {s : Symbol} {read : Reader Json} (h : scalar? s = some read) :
    Gives read fun j => ∀ n, j = .number n → InRange n := by
  have hnumber : Gives (Json.number <$> signedNumber) fun j => ∀ n, j = .number n → InRange n := by
    have hsigned : Gives signedNumber InRange := by
      refine (gives_any _).bind fun _ _ => ?_
      split
      next => exact (gives_any _).bind fun _ _ => gives_number true
      next => exact gives_number false
    refine hsigned.map fun n hn m hm => ?_
    cases hm
    exact hn
  unfold scalar? at h
  split at h
  next =>
    cases h
    refine (gives_any _).bind fun _ _ => (gives_any _).bind fun _ _ => gives_pure ?_
    rintro n ⟨⟩
  next =>
    cases h
    refine (gives_any _).bind fun _ _ => (gives_any _).bind fun _ _ => gives_pure ?_
    rintro n ⟨⟩
  next =>
    cases h
    refine (gives_any _).bind fun _ _ => (gives_any _).bind fun _ _ => gives_pure ?_
    rintro n ⟨⟩
  next =>
    cases h
    refine (gives_any _).map fun s _ n hn => ?_
    cases hn
  next =>
    cases h
    exact hnumber
  next =>
    split at h
    next =>
      cases h
      exact hnumber
    next => cases h

end Reader

namespace Decoder
open Reader
variable {α : Type}

theorem gives_mismatch (expected : String) (s : Symbol) (P : α → Prop) :
    Gives (mismatch expected s) P := by
  unfold mismatch
  split
  next => exact (gives_any _).bind fun j _ => gives_failHere _ _
  next => exact gives_failHere _ _
  next => exact gives_failHere _ _
  next => exact gives_failNext _ _

theorem gives_scalarDecoder {expected : String} {convert : Json → Except Cause α} {P : α → Prop}
    (hconvert : ∀ j a, (∀ n, j = .number n → InRange n) → convert j = .ok a → P a)
    (depth : Nat) : Gives ((scalar expected convert).read depth) P := by
  refine (gives_any _).bind fun _ _ => ?_
  split
  next => exact gives_failNext _ _
  next s =>
  split
  next read hread =>
    refine (gives_scalar hread).bind fun j hj => ?_
    unfold settle
    split
    next a ha => exact gives_pure (hconvert j a hj ha)
    next => exact gives_failHere _ _
  next => exact gives_mismatch expected s P

/-- Every float that is read is finite. -/
theorem gives_float (depth : Nat) : Gives (float.read depth) fun x => x.isFinite = true := by
  refine gives_scalarDecoder ?_ depth
  intro j x hrange hx
  split at hx
  next y =>
    cases hx
    exact hrange _ rfl
  next n =>
    cases hx
    exact isFinite_ofNatural (hrange _ rfl) _
  next => cases hx

end Decoder

/-! ## Records -/

/-- A value that a field may have: its decoder read it from somewhere, or it stands for absence. -/
def Field.Offers (f : Field) (value : f.Carrier) : Prop :=
  (∃ depth text rest, f.decoder.read depth text = .ok (value, rest)) ∨ f.absent = some value ∨
    f.absentInList = some value

/-- Each value is one that its field may have. -/
def Row.Offered : {fs : List Field} → Row fs → Prop
  | [], _ => True
  | f :: _, (value, row) => f.Offers value ∧ row.Offered

/-- Each value that has been read is one that its field may have. -/
def Slots.Offered : {fs : List Field} → Slots fs → Prop
  | [], _ => True
  | f :: _, (slot, slots) => (∀ value ∈ slot, f.Offers value) ∧ slots.Offered

namespace Slots
open Reader

theorem offered_empty (fs : List Field) : (empty fs).Offered := by
  induction fs with
  | nil => trivial
  | cons f fs ih =>
      refine ⟨?_, ih⟩
      rintro value ⟨⟩

theorem Offered.complete {fs : List Field} {slots : Slots fs} {row : Row fs} (h : slots.Offered)
    (hrow : slots.complete = .ok row) : row.Offered := by
  induction fs with
  | nil => trivial
  | cons f fs ih =>
      obtain ⟨slot, slots⟩ := slots
      obtain ⟨hslot, hslots⟩ := h
      rw [Slots.complete] at hrow
      cases hvalue : (slot <|> f.absent) with
      | none =>
          rw [hvalue] at hrow
          cases hrow
      | some value =>
          rw [hvalue] at hrow
          cases hrest : slots.complete with
          | error cause =>
              rw [hrest] at hrow
              cases hrow
          | ok rest =>
              rw [hrest] at hrow
              cases hrow
              refine ⟨?_, ih hslots hrest⟩
              cases slot with
              | none => exact Or.inr (Or.inl hvalue)
              | some read =>
                  cases hvalue
                  exact hslot _ rfl

theorem gives_readMember {fs : List Field} {depth : Nat} {name : String} {slots : Slots fs}
    {read : Reader (Slots fs)} (h : slots.Offered)
    (hread : slots.readMember depth name = some read) : Gives read Slots.Offered := by
  induction fs with
  | nil => cases hread
  | cons f fs ih =>
      obtain ⟨slot, slots⟩ := slots
      obtain ⟨hslot, hslots⟩ := h
      rw [readMember] at hread
      split at hread
      next hname =>
        cases hread
        split
        next => exact gives_failWithin _ _
        next =>
          refine (gives_any _).bind fun _ _ => ?_
          refine (gives_self _).bind fun value hvalue => gives_pure ⟨?_, hslots⟩
          rintro _ ⟨⟩
          exact Or.inl ⟨depth, hvalue⟩
      next hname =>
        obtain ⟨inner, hinner, rfl⟩ := Option.map_eq_some_iff.mp hread
        exact (ih hslots hinner).map fun next hnext => ⟨hslot, hnext⟩

end Slots

namespace Decoder
open Reader
variable {α β : Type} {fs : List Field}

theorem gives_readMembers (depth : Nat) (unknown : String → Reader β) (fuel : Nat) :
    ∀ (first : Bool) (slots : Slots fs), slots.Offered →
      Gives (readMembers depth unknown first fuel slots) fun result => result.1.Offered := by
  induction fuel with
  | zero => exact fun _ _ hslots => gives_pure hslots
  | succ fuel ih =>
      intro first slots hslots
      refine (gives_any _).bind fun _ _ => ?_
      split
      next => exact gives_pure hslots
      next name =>
      split
      next read hread =>
        exact (Slots.gives_readMember hslots hread).bind fun next hnext => ih false next hnext
      next =>
        exact (gives_any _).bind fun _ _ =>
          (ih false slots hslots).bind fun result hresult => gives_pure hresult

theorem gives_nextElement? {first : Bool} {element : Reader α} {P : α → Prop}
    (h : Gives element P) : Gives (nextElement? first element) fun a? => ∀ a ∈ a?, P a := by
  have helement : Gives (some <$> element) fun a? => ∀ a ∈ a?, P a := by
    refine h.map fun a ha => ?_
    rintro _ ⟨⟩
    exact ha
  refine (gives_any _).bind fun _ _ => ?_
  split
  next => exact gives_failNext _ _
  next =>
    refine gives_pure ?_
    rintro _ ⟨⟩
  next =>
  split
  next => exact helement
  next =>
  split
  next =>
    refine (gives_any _).bind fun _ _ => (gives_any _).bind fun _ _ => ?_
    split
    next => exact gives_failNext _ _
    next => exact helement
    next => exact gives_failNext _ _
  next => exact gives_failNext _ _

theorem gives_readElements (depth : Nat) (expected : String) (fs : List Field) :
    ∀ index, Gives (readElements depth expected index fs) Row.Offered := by
  induction fs with
  | nil => exact fun _ => gives_pure trivial
  | cons f fs ih =>
      intro index
      refine (gives_nextElement? (gives_self _)).bind fun element helement => ?_
      extract_lets afterElement
      have hafterElement : ∀ value, f.Offers value → Gives (afterElement value) Row.Offered :=
        fun value hvalue => (ih (index + 1)).bind fun row hrow => gives_pure ⟨hvalue, hrow⟩
      split
      next value =>
        refine Gives.bind (P := f.Offers) (gives_pure ?_) hafterElement
        exact Or.inl ⟨depth, helement value rfl⟩
      next =>
      split
      next value hvalue =>
        exact Gives.bind (P := f.Offers) (gives_pure (Or.inr (Or.inr hvalue))) hafterElement
      next => exact (gives_failWithin f.Offers _).bind hafterElement

theorem gives_container {depth : Nat} {past : List Symbol → List Symbol} {close : Reader Unit}
    {body : Nat → Reader α} {P : α → Prop} (hbody : ∀ depth, Gives (body depth) P) :
    Gives (container depth past close body) P := by
  intro text a rest h
  cases depth with
  | zero => cases h
  | succ depth =>
      rw [container] at h
      split at h
      next => cases h
      next => cases h
      next value tail hvalue =>
        have hclose : Gives (do close; pure value) P :=
          (gives_any _).bind fun _ _ => gives_pure (hbody _ _ _ _ hvalue)
        exact hclose _ _ _ h

theorem gives_readRecord (expected whole : String) (fs : List Field) (depth : Nat) :
    Gives (readRecord expected whole fs depth) Row.Offered := by
  refine (gives_any _).bind fun _ _ => ?_
  split
  next => exact gives_failNext _ _
  next => exact gives_container fun inner => gives_readElements inner whole fs 0
  next =>
    refine gives_container fun inner => (gives_any _).bind fun count _ => ?_
    refine (gives_readMembers inner _ _ true _ (Slots.offered_empty fs)).bind fun result h => ?_
    obtain ⟨slots, others⟩ := result
    unfold finish
    dsimp only
    split
    next row hrow => exact gives_pure (h.complete hrow)
    next => exact gives_failWithin _ _
  next => exact gives_mismatch expected _ _

/-- A record that is read is built from values that its fields may have. -/
theorem gives_record (name : String) (build : Row fs → α) (depth : Nat) :
    Gives ((record name fs build).read depth) fun a => ∃ row : Row fs, row.Offered ∧ a = build row :=
  (gives_readRecord _ _ fs depth).map fun row hrow => ⟨row, hrow, rfl⟩

theorem gives_optional {d : Decoder α} {P : α → Prop} {depth : Nat}
    (h : Gives (d.read depth) P) : Gives (d.optional.read depth) fun a? => ∀ a ∈ a?, P a := by
  refine (gives_any _).bind fun _ _ => ?_
  split
  next =>
    refine (gives_any _).bind fun _ _ => (gives_any _).bind fun _ _ => gives_pure ?_
    rintro a ⟨⟩
  next =>
    refine h.map fun a ha => ?_
    rintro _ ⟨⟩
    exact ha

/-- What holds of every value that is read holds of the value of a whole text. -/
theorem of_decode {d : Decoder α} {P : α → Prop} (h : ∀ depth, Gives (d.read depth) P)
    {text : List Symbol} {a : α} (hdecode : d.decode text = .ok a) : P a := by
  rw [decode, run] at hdecode
  split at hdecode
  next value rest hvalue =>
    cases hdecode
    refine Gives.bind (Q := P) (h depthLimit) (fun a ha => ?_) _ _ _ hvalue
    refine (gives_any _).bind fun found _ => ?_
    split
    next => exact gives_pure ha
    next => exact gives_failNext _ _
  next => cases hdecode

end Decoder

end WalletEngine.Json
