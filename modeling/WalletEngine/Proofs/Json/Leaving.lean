import WalletEngine.Json.Tree
import WalletEngine.Proofs.Json.Reading

/-! # What a reader leaves

A reader that succeeds has taken something from the front of the text. What its answer and the rest
of the text have in common is found step by step: where steps follow one another, each starts from
what the one before it has left.
-/

namespace WalletEngine.Json.Reader
open Steps

variable {α β : Type}

theorem skip_apply (text : List Symbol) : skip text = .ok ((), text.tail) := rfl

/-- Whatever is read from a text, the answer and what is left of the text fit together. -/
def Leaves (read : Reader α) (text : List Symbol) (P : α → List Symbol → Prop) : Prop :=
  ∀ a rest, read text = .ok (a, rest) → P a rest

section Leaving
variable {P : α → List Symbol → Prop} {text : List Symbol}

theorem leaves_pure {a : α} (h : P a text) : Leaves (pure a) text P := by
  rintro b rest ⟨⟩
  exact h

theorem leaves_failHere (cause : Cause) : Leaves (failHere cause) text P := by
  rintro a rest ⟨⟩

theorem leaves_failNext (cause : Cause) : Leaves (failNext cause) text P := by
  rintro a rest ⟨⟩

theorem Leaves.bind {read : Reader β} {next : β → Reader α}
    (h : Leaves read text fun b middle => Leaves (next b) middle P) :
    Leaves (read >>= next) text P := by
  intro a rest hread
  obtain ⟨b, middle, hfirst, hnext⟩ := bind_ok_iff.mp hread
  exact h b middle hfirst a rest hnext

theorem Leaves.map {read : Reader β} {f : β → α} (h : Leaves read text fun b => P (f b)) :
    Leaves (f <$> read) text P := by
  intro a rest hread
  obtain ⟨b, hb, rfl⟩ := map_ok_iff.mp hread
  exact h b rest hb

theorem leaves_peek {next : Option Symbol → Reader α} (h : Leaves (next text.head?) text P) :
    Leaves (peek? >>= next) text P := by
  refine Leaves.bind ?_
  rintro _ _ ⟨⟩
  exact h

theorem leaves_peekSolid {next : Option Symbol → Reader α}
    (h : Leaves (next (text.dropWhile isSpace).head?) (text.dropWhile isSpace) P) :
    Leaves (peekSolid? >>= next) text P := by
  refine Leaves.bind ?_
  rintro _ _ ⟨⟩
  exact h

theorem leaves_skip {next : Unit → Reader α} (h : Leaves (next ()) text.tail P) :
    Leaves (skip >>= next) text P := by
  refine Leaves.bind ?_
  rintro _ _ ⟨⟩
  exact h

end Leaving

/-! ## Punctuation -/

section Punctuation
variable {first : Bool} {text : List Symbol}

theorem peekSolid?_apply {s : Symbol} {tail : List Symbol}
    (h : text.dropWhile isSpace = s :: tail) : peekSolid? text = .ok (some s, s :: tail) := by
  rw [peekSolid?, h]
  rfl

theorem leaves_skip_of_head {s : Symbol} (h : text.head? = some s) :
    Leaves skip text fun _ rest => text = s :: rest := by
  obtain ⟨tail, rfl⟩ := List.head?_eq_some_iff.mp h
  rintro _ _ ⟨⟩
  rfl

theorem leaves_closeList :
    Leaves closeList text fun _ rest => text.dropWhile isSpace = .char ']' :: rest := by
  refine leaves_peekSolid ?_
  split
  next hclose => exact leaves_skip_of_head hclose
  next =>
    refine leaves_skip (leaves_peekSolid ?_)
    split
    next => exact leaves_failNext _
    next => exact leaves_failNext _
  next => exact leaves_failNext _
  next => exact leaves_failNext _

theorem leaves_closeObject :
    Leaves closeObject text fun _ rest => text.dropWhile isSpace = .char '\x7d' :: rest := by
  refine leaves_peekSolid ?_
  split
  next hclose => exact leaves_skip_of_head hclose
  next => exact leaves_failNext _
  next => exact leaves_failNext _
  next => exact leaves_failNext _

/-- Where the next item of a container starts. -/
inductive Start (closing : Char) : Bool → List Symbol → List Symbol → Prop
  | first {s : Symbol} {text tail : List Symbol} (hsolid : text.dropWhile isSpace = s :: tail)
      (hs : s ≠ .char closing) : Start closing true text (s :: tail)
  | next {s : Symbol} {text tail start : List Symbol}
      (hsolid : text.dropWhile isSpace = .char ',' :: tail)
      (hnext : tail.dropWhile isSpace = s :: start) (hs : s ≠ .char closing) :
      Start closing false text (s :: start)

/-- What was found is an item, which starts with a symbol that may open it, or the closing bracket,
which stays. -/
def Found (closing : Char) (opens : Symbol → Prop) (first : Bool) (item : Reader α)
    (text : List Symbol) (found : Option α) (middle : List Symbol) : Prop :=
  match found with
  | none => ∃ rest, text.dropWhile isSpace = .char closing :: rest ∧
      middle = .char closing :: rest
  | some a => ∃ s tail, opens s ∧ Start closing first text (s :: tail) ∧
      item (s :: tail) = .ok (a, middle)

theorem leaves_found {closing : Char} {opens : Symbol → Prop} {item : Reader α} {s : Symbol}
    {tail : List Symbol} (hs : opens s) (hstart : Start closing first text (s :: tail)) :
    Leaves (some <$> item) (s :: tail) (Found closing opens first item text) :=
  Leaves.map fun _ _ hitem => ⟨s, tail, hs, hstart, hitem⟩

theorem leaves_nextElement (element : Reader α) : Leaves (nextElement? first element) text
    (Found ']' (fun _ => True) first element text) := by
  refine leaves_peekSolid ?_
  split
  next => exact leaves_failNext _
  next hclose =>
    obtain ⟨rest, hrest⟩ := List.head?_eq_some_iff.mp hclose
    exact leaves_pure ⟨rest, hrest, hrest⟩
  next s hs hhead =>
    obtain ⟨tail, htail⟩ := List.head?_eq_some_iff.mp hhead
    rw [htail]
    split
    next hfirst =>
      subst hfirst
      exact leaves_found trivial (.first htail hs)
    next hfirst =>
    obtain rfl := Bool.eq_false_iff.mpr hfirst
    split
    next hcomma =>
      subst hcomma
      refine leaves_skip (leaves_peekSolid ?_)
      split
      next => exact leaves_failNext _
      next s' hs' hhead' =>
        obtain ⟨start, hstart⟩ := List.head?_eq_some_iff.mp hhead'
        rw [hstart]
        exact leaves_found trivial (.next htail hstart hs')
      next => exact leaves_failNext _
    next => exact leaves_failNext _

/-- The elements of a list, each where the one before it ends, up to the closing bracket and past
it. -/
inductive Listed (element : Nat → Reader α) : Nat → List Symbol → List α → List Symbol → Prop
  | nil {index : Nat} {text rest : List Symbol}
      (hsolid : text.dropWhile isSpace = .char ']' :: rest) : Listed element index text [] rest
  | cons {index : Nat} {text start after rest : List Symbol} {a : α} {more : List α}
      (hstart : Start ']' (index == 0) text start) (ha : element index start = .ok (a, after))
      (hmore : Listed element (index + 1) after more rest) :
      Listed element index text (a :: more) rest

theorem leaves_elements (element : Nat → Reader α) (fuel : Nat) :
    ∀ (index : Nat) (text : List Symbol), Leaves (elements element index fuel) text
      fun items middle => ∀ rest, closeList middle = .ok ((), rest) →
        Listed element index text items rest := by
  induction fuel with
  | zero =>
      intro index text
      exact leaves_pure fun rest hclose => .nil (leaves_closeList _ _ hclose)
  | succ fuel ih =>
      intro index text
      refine Leaves.bind fun found after hnext => ?_
      have hfound := leaves_nextElement _ _ _ hnext
      cases found with
      | none =>
          obtain ⟨tail, hsolid, rfl⟩ := hfound
          refine leaves_pure ?_
          rintro rest ⟨⟩
          exact .nil hsolid
      | some a =>
          obtain ⟨s, tail, -, hstart, ha⟩ := hfound
          refine Leaves.map fun more middle hmore rest hclose => ?_
          exact .cons hstart ha (ih (index + 1) after more middle hmore rest hclose)

theorem leaves_nextName (name : Reader α) : Leaves (nextName? first name) text
    (Found '\x7d' (· = .char '"') first name text) := by
  refine leaves_peekSolid ?_
  split
  next => exact leaves_failNext _
  next hclose =>
    obtain ⟨rest, hrest⟩ := List.head?_eq_some_iff.mp hclose
    exact leaves_pure ⟨rest, hrest, hrest⟩
  next s hs hhead =>
    obtain ⟨tail, htail⟩ := List.head?_eq_some_iff.mp hhead
    rw [htail]
    split
    next hfirst =>
      subst hfirst
      split
      next hquote => exact leaves_found hquote (.first htail hs)
      next => exact leaves_failNext _
    next hfirst =>
    obtain rfl := Bool.eq_false_iff.mpr hfirst
    split
    next hcomma =>
      subst hcomma
      refine leaves_skip (leaves_peekSolid ?_)
      split
      next hhead' =>
        obtain ⟨start, hstart⟩ := List.head?_eq_some_iff.mp hhead'
        rw [hstart]
        exact leaves_found rfl (.next htail hstart (by decide))
      next => exact leaves_failNext _
      next => exact leaves_failNext _
      next => exact leaves_failNext _
    next => exact leaves_failNext _

theorem nextElement?_of_start {start : List Symbol} (h : Start ']' first text start)
    (element : Reader α) : nextElement? first element text = (some <$> element) start := by
  cases h with
  | first hsolid hs =>
      rw [nextElement?, bind_of_ok (peekSolid?_apply hsolid)]
      simp only [if_true]
  | next hsolid hnext hs =>
      rw [nextElement?, bind_of_ok (peekSolid?_apply hsolid)]
      refine (bind_of_ok (skip_cons _ _)).trans ((bind_of_ok (peekSolid?_apply hnext)).trans ?_)
      simp only []

theorem nextElement?_of_closing {rest : List Symbol}
    (h : text.dropWhile isSpace = .char ']' :: rest) (element : Reader α) :
    nextElement? first element text = .ok (none, .char ']' :: rest) := by
  rw [nextElement?, bind_of_ok (peekSolid?_apply h)]
  rfl

end Punctuation

/-! ## Containers and trees -/

section Trees
variable {text : List Symbol}

theorem container_ok_iff {inner : Nat} {past : List Symbol → List Symbol} {close : Reader Unit}
    {body : Nat → Reader α} {a : α} {rest : List Symbol} :
    container (inner + 1) past close body text = .ok (a, rest) ↔
      ∃ middle, body inner text.tail = .ok (a, middle) ∧ close middle = .ok ((), rest) := by
  rw [container]
  constructor
  · intro h
    split at h
    next => cases h
    next => cases h
    next a' middle hbody =>
      obtain ⟨_, _, hclose, ⟨⟩⟩ := bind_ok_iff.mp h
      exact ⟨middle, hbody, hclose⟩
  · rintro ⟨middle, hbody, hclose⟩
    rw [hbody]
    exact bind_of_ok hclose

theorem within_ok {step : Step} {read : Reader α} {rest : List Symbol} {a : α} :
    within step read text = .ok (a, rest) ↔ read text = .ok (a, rest) := by
  rw [within]
  split
  next fault hread => simp [hread]
  next => rfl

/-- A value is a scalar, a list or an object, and its first symbol tells which. -/
theorem leaves_scalarOr {list object : Reader Json} : Leaves (scalarOr list object) text
    fun j rest => ∃ s tail, text.dropWhile isSpace = s :: tail ∧
      ((∃ read, scalar? s = some read ∧ read (s :: tail) = .ok (j, rest)) ∨
        (s = .char '[' ∧ list (s :: tail) = .ok (j, rest)) ∨
        (s = .char '\x7b' ∧ object (s :: tail) = .ok (j, rest))) := by
  refine leaves_peekSolid ?_
  split
  next => exact leaves_failNext _
  next s hhead =>
    obtain ⟨tail, htail⟩ := List.head?_eq_some_iff.mp hhead
    rw [htail]
    split
    next read hscalar => exact fun j rest h => ⟨s, tail, rfl, .inl ⟨read, hscalar, h⟩⟩
    next =>
    split
    next => exact fun j rest h => ⟨_, tail, rfl, .inr (.inl ⟨rfl, h⟩)⟩
    next => exact fun j rest h => ⟨_, tail, rfl, .inr (.inr ⟨rfl, h⟩)⟩
    next => exact leaves_failNext _

/-- What a tree was read from. -/
inductive Grows (arrange : List (String × Json) → List (String × Json)) (depth : Nat)
    (text : List Symbol) : Json → List Symbol → Prop
  | scalar {s : Symbol} {tail rest : List Symbol} {read : Reader Json} {j : Json}
      (hsolid : text.dropWhile isSpace = s :: tail) (hscalar : scalar? s = some read)
      (hread : read (s :: tail) = .ok (j, rest)) : Grows arrange depth text j rest
  | array {tail rest : List Symbol} {inner : Nat} {items : List Json}
      (hsolid : text.dropWhile isSpace = .char '[' :: tail) (hdepth : depth = inner + 1)
      (hitems : Listed (fun i => within (.index i) (tree arrange inner)) 0 tail items rest) :
      Grows arrange depth text (.array items) rest
  | object {tail middle rest : List Symbol} {inner : Nat} {ms : List (String × Json)}
      (hsolid : text.dropWhile isSpace = .char '\x7b' :: tail) (hdepth : depth = inner + 1)
      (hmembers : members string (fun name => do colon; within (.key name) (tree arrange inner))
        true (tail.length + 1) tail = .ok (ms, middle))
      (hclose : closeObject middle = .ok ((), rest)) :
      Grows arrange depth text (.object (arrange ms)) rest

theorem leaves_tree (arrange : List (String × Json) → List (String × Json)) (depth : Nat) :
    Leaves (tree arrange depth) text (Grows arrange depth text) := by
  intro j rest h
  cases depth with
  | zero =>
      obtain ⟨s, tail, hsolid, ⟨read, hscalar, hread⟩ | ⟨-, hlist⟩ | ⟨-, hobject⟩⟩ :=
        leaves_scalarOr j rest h
      · exact .scalar hsolid hscalar hread
      · cases hlist
      · cases hobject
  | succ depth =>
      obtain ⟨s, tail, hsolid, ⟨read, hscalar, hread⟩ | ⟨rfl, hlist⟩ | ⟨rfl, hobject⟩⟩ :=
        leaves_scalarOr j rest h
      · exact .scalar hsolid hscalar hread
      · obtain ⟨items, hitems, rfl⟩ := map_ok_iff.mp hlist
        obtain ⟨middle, hbody, hclose⟩ := container_ok_iff.mp hitems
        obtain ⟨_, _, ⟨⟩, hbody⟩ := bind_ok_iff.mp hbody
        exact .array hsolid rfl (leaves_elements _ _ _ _ _ _ hbody _ hclose)
      · obtain ⟨ms, hms, rfl⟩ := map_ok_iff.mp hobject
        obtain ⟨middle, hbody, hclose⟩ := container_ok_iff.mp hms
        obtain ⟨_, _, ⟨⟩, hbody⟩ := bind_ok_iff.mp hbody
        obtain ⟨ms, behind, hmembers, ⟨⟩⟩ := bind_ok_iff.mp hbody
        exact .object hsolid rfl hmembers hclose

/-- A whole text is read if only blanks are left. -/
theorem run_ok_iff {read : Nat → Reader α} {a : α} :
    run read text = .ok a ↔
      ∃ rest, read depthLimit text = .ok (a, rest) ∧ rest.dropWhile isSpace = [] := by
  rw [run]
  constructor
  · intro h
    split at h
    next b stop hwhole =>
      cases h
      obtain ⟨b, rest, hread, hend⟩ := bind_ok_iff.mp hwhole
      -- What is read of the rest is only whether anything is left.
      have hblank : b = a ∧ rest.dropWhile isSpace = [] := by
        refine leaves_peekSolid (P := fun c _ => b = c ∧ rest.dropWhile isSpace = []) ?_ a stop hend
        split
        next hnone => exact leaves_pure ⟨rfl, List.head?_eq_none_iff.mp hnone⟩
        next => exact leaves_failNext _
      obtain ⟨rfl, hrest⟩ := hblank
      exact ⟨rest, hread, hrest⟩
    next => cases h
  · rintro ⟨rest, hread, hblank⟩
    have hend : peekSolid? rest = .ok (none, []) := by
      rw [peekSolid?, hblank]
      rfl
    rw [bind_of_ok hread, bind_of_ok hend]
    rfl

end Trees

end WalletEngine.Json.Reader
