import WalletEngine.Json.Tree
import WalletEngine.Proofs.Json.Floats
import WalletEngine.Proofs.Json.Records
import WalletEngine.Proofs.Transfer.Canonical

/-! # Values in a text

The compact text of a value is read as that value, with the members of its objects in order and with
each float as its text is read. This takes numbers that can be written as such, and containers that do
not stand too deep inside one another.
-/

namespace WalletEngine

open Steps

/-! ## Readable values -/

/-- The number that the text of a number is read as. -/
def Number.reread : Number → Number
  | .integer n => .integer n
  | .float x => .float x.reread

/-- A number of 64 bits, or a finite float. -/
def Number.IsReadable : Number → Prop
  | .integer n => -2 ^ 63 ≤ n ∧ n < 2 ^ 64
  | .float x => x.isFinite = true

namespace Json

mutual

/-- The value with its floats as their texts are read. -/
def reread : Json → Json
  | .number n => .number n.reread
  | .array items => .array (rereadItems items)
  | .object members => .object (rereadMembers members)
  | j => j

def rereadItems : List Json → List Json
  | [] => []
  | item :: rest => item.reread :: rereadItems rest

/-- The members of an object, the value of each reread. -/
def rereadMembers : List (String × Json) → List (String × Json)
  | [] => []
  | (name, value) :: rest => (name, value.reread) :: rereadMembers rest

end

/-- A value that can be read where `depth` containers may still be opened. -/
inductive Readable : Nat → Json → Prop
  | null (depth : Nat) : Readable depth .null
  | bool (depth : Nat) (b : Bool) : Readable depth (.bool b)
  | number (depth : Nat) {n : Number} (hn : n.IsReadable) : Readable depth (.number n)
  | string (depth : Nat) (s : String) : Readable depth (.string s)
  | array {depth : Nat} {items : List Json} (hitems : ∀ item ∈ items, Readable depth item) :
      Readable (depth + 1) (.array items)
  | object {depth : Nat} {members : List (String × Json)}
      (hmembers : ∀ m ∈ members, Readable depth m.2) : Readable (depth + 1) (.object members)

theorem itemsChars_eq (items : List Json) : itemsChars items = items.map chars := by
  induction items with
  | nil => rfl
  | cons item rest ih => rw [itemsChars, ih, List.map_cons]

theorem sortedItems_reread (items : List Json) :
    sortedItems (rereadItems items) = items.map fun item => item.reread.sorted := by
  induction items with
  | nil => rfl
  | cons item rest ih => rw [rereadItems, sortedItems, ih, List.map_cons]

theorem sortedMembers_reread (members : List (String × Json)) :
    sortedMembers (rereadMembers members) = members.map fun m => (m.1, m.2.reread.sorted) := by
  induction members with
  | nil => rfl
  | cons m rest ih => rw [rereadMembers, sortedMembers, ih, List.map_cons]

namespace Reader
variable {α ι : Type}

/-! ## Scalars -/

theorem spells_integer {n : Int} (hn : (Number.integer n).IsReadable) :
    Spells (numberChars (.integer n)) (.number (.integer n)) := by
  obtain ⟨hlow, hhigh⟩ := hn
  have htext : numberChars (.integer n) = signChars (decide (n < 0)) ++ Nat.toDigits 10 n.natAbs := by
    rw [numberChars, toList_toString, signChars]
    simp only [decide_eq_true_eq]
  have hfit : n.natAbs < UInt64.size := by
    rw [UInt64.size]
    omega
  have hvalue : integral (decide (n < 0)) n.natAbs = .integer n := by
    have hmin : Int64.minValue.toInt = -2 ^ 63 := rfl
    rw [integral, hmin]
    by_cases hneg : n < 0
    · have hnot : ¬(n.natAbs = 0 ∨ -(n.natAbs : Int) < -2 ^ 63) := by omega
      simp only [hneg, decide_true, Bool.not_true, Bool.false_eq_true, if_false, Bool.or_eq_true,
        decide_eq_true_eq, hnot]
      congr 1
      omega
    · simp only [hneg, decide_false, Bool.not_false, if_true]
      congr 1
      omega
  rw [htext]
  refine spells_number fun rest hrest => ?_
  rw [number_toDigits _ hfit hrest, hvalue]

theorem spells_number_reread {n : Number} (hn : n.IsReadable) :
    Spells (numberChars n) (.number n.reread) := by
  cases n with
  | integer n => exact spells_integer hn
  | float x => exact (spells_reread hn).2

theorem takes_scalarOr {text : List Char} {j : Json} (h : Spells text j) (list object : Reader Json) :
    Takes (scalarOr list object) text j := by
  obtain ⟨c, cs, read, rfl, hc, hscalar, hread⟩ := h
  intro blanks rest hblanks hrest
  rw [scalarOr, List.map_cons, List.cons_append, bind_of_ok (peekSolid?_blanks hblanks hc _)]
  simp only [hscalar]
  exact hread rest hrest

theorem takes_tree_of_spells {text : List Char} {j : Json} (h : Spells text j)
    (arrange : List (String × Json) → List (String × Json)) (depth : Nat) :
    Takes (tree arrange depth) text j := by
  cases depth with
  | zero => exact takes_scalarOr h _ _
  | succ depth => exact takes_scalarOr h _ _

/-! ## Parts with commas between them -/

/-- Parts with a comma in front of each, except in front of the first of all. -/
def separated : Bool → List (List Char) → List Char
  | _, [] => []
  | first, part :: parts => (if first then [] else [',']) ++ (part ++ separated false parts)

theorem commas_eq (parts : List (List Char)) : commas parts = separated true parts := by
  cases parts with
  | nil => rfl
  | cons part parts =>
      induction parts generalizing part with
      | nil => simp [commas, separated]
      | cons next parts ih =>
          rw [commas, ih next]
          · simp [separated]
          · exact List.cons_ne_nil _ _

theorem stops_closing {c : Char} (rest : List Symbol) (hc : c = ']' ∨ c = '\x7d') :
    Stops (.char c :: rest) := by
  rcases hc with rfl | rfl <;> exact stops_cons _ (by decide)

/-- What follows a part does not continue a number. -/
theorem stops_separated (parts : List (List Char)) {rest : List Symbol} (hrest : Stops rest) :
    Stops ((separated false parts).map .char ++ rest) := by
  cases parts with
  | nil => exact hrest
  | cons part parts => exact stops_cons _ (by decide)

theorem length_le_separated {text : ι → List Char} {items : List ι}
    (htext : ∀ i ∈ items, text i ≠ []) (first : Bool) :
    items.length ≤ (separated first (items.map text)).length := by
  induction items generalizing first with
  | nil => exact Nat.zero_le _
  | cons item items ih =>
      have hitem := List.length_pos_of_ne_nil (htext item List.mem_cons_self)
      have hitems := ih (fun i hi => htext i (List.mem_cons_of_mem _ hi)) false
      simp only [List.map_cons, separated, List.length_append, List.length_cons]
      omega

/-! ## Lists -/

/-- The text starts with a character that neither is blank nor ends a list. -/
def Begins (text : List Char) : Prop :=
  ∃ c cs, text = c :: cs ∧ isSpace (.char c) = false ∧ c ≠ ']'

theorem Begins.ne_nil {text : List Char} (h : Begins text) : text ≠ [] := by
  obtain ⟨c, cs, rfl, -⟩ := h
  exact List.cons_ne_nil c cs

theorem Spells.begins {text : List Char} {j : Json} (h : Spells text j) : Begins text := by
  obtain ⟨c, cs, read, htext, hc, hscalar, -⟩ := h
  refine ⟨c, cs, htext, hc, ?_⟩
  rintro rfl
  cases hscalar

theorem begins_chars {depth : Nat} {j : Json} (h : Readable depth j) : Begins j.chars := by
  cases h with
  | null => exact spells_null.begins
  | bool depth b => exact (spells_bool b).begins
  | number depth hn => exact (spells_number_reread hn).begins
  | string depth s => exact (spells_string s).begins
  | array => exact ⟨'[', _, rfl, by decide, by decide⟩
  | object => exact ⟨'\x7b', _, rfl, by decide, by decide⟩

theorem nextElement?_part {element : Reader α} {part : List Char} {a : α} (hbegins : Begins part)
    (htakes : Takes element part a) (first : Bool) {rest : List Symbol} (hrest : Stops rest) :
    nextElement? first element (((if first then [] else [',']) ++ part).map .char ++ rest) =
      .ok (some a, rest) := by
  obtain ⟨c, cs, rfl, hc, hclose⟩ := hbegins
  have hread := htakes [] rest allBlank_nil hrest
  have hpeek := peekSolid?_char hc (cs.map .char ++ rest)
  cases first with
  | true =>
      rw [nextElement?, if_pos rfl, List.nil_append, List.map_cons, List.cons_append,
        bind_of_ok hpeek]
      simp only [Symbol.char.injEq, hclose, imp_self, if_true]
      exact map_of_ok hread some
  | false =>
      rw [nextElement?, if_neg (by decide), List.cons_append, List.map_cons, List.cons_append,
        bind_of_ok (peekSolid?_char (by decide) _)]
      change (skip >>= fun _ => (peekSolid? >>= _)) _ = _
      rw [bind_of_ok (skip_cons _ _), List.nil_append, List.map_cons, List.cons_append,
        bind_of_ok hpeek]
      simp only [Symbol.char.injEq, hclose, imp_self]
      exact map_of_ok hread some

theorem nextElement?_end (first : Bool) (element : Reader α) (rest : List Symbol) :
    nextElement? first element (.char ']' :: rest) = .ok (none, .char ']' :: rest) := by
  rw [nextElement?, bind_of_ok (peekSolid?_char (by decide) rest)]
  rfl

/-- A list of parts is read part by part. -/
theorem elements_separated {element : Nat → Reader α} {text : ι → List Char} {value : ι → α}
    {items : List ι} (hbegins : ∀ i ∈ items, Begins (text i))
    (htakes : ∀ i ∈ items, ∀ index, Takes (element index) (text i) (value i)) (index : Nat)
    {fuel : Nat} (hfuel : items.length < fuel) (rest : List Symbol) :
    elements element index fuel
        ((separated (index == 0) (items.map text)).map .char ++ .char ']' :: rest) =
      .ok (items.map value, .char ']' :: rest) := by
  obtain ⟨fuel, rfl⟩ := Nat.exists_eq_succ_of_ne_zero (Nat.ne_of_gt (Nat.zero_lt_of_lt hfuel))
  -- One unit of fuel is spent on each part and one on the end.
  induction items generalizing index fuel with
  | nil =>
      rw [elements, List.map_nil, separated, List.map_nil, List.nil_append,
        bind_of_ok (nextElement?_end _ _ rest)]
      rfl
  | cons item items ih =>
      obtain ⟨fuel, rfl⟩ := Nat.exists_eq_succ_of_ne_zero
        (Nat.ne_of_gt (Nat.zero_lt_of_lt (Nat.lt_of_succ_lt_succ hfuel)))
      have hrest := stops_separated (items.map text) (stops_closing rest (.inl rfl))
      have hnext := nextElement?_part (hbegins item List.mem_cons_self)
        (htakes item List.mem_cons_self index) (index == 0) hrest
      have hmore := ih (fun i hi => hbegins i (List.mem_cons_of_mem _ hi))
        (fun i hi => htakes i (List.mem_cons_of_mem _ hi)) (index + 1) fuel (by simpa using hfuel)
      rw [elements, List.map_cons, separated, ← List.append_assoc, List.map_append,
        List.append_assoc, bind_of_ok hnext]
      exact map_of_ok hmore _

/-! ## Objects -/

/-- The members of an object are read one by one. -/
theorem members_separated {member : String → Reader α} {text : ι → List Char} {name : ι → String}
    {value : ι → α} {items : List ι}
    (htakes : ∀ i ∈ items, Takes (member (name i)) (':' :: text i) (value i)) (first : Bool)
    {fuel : Nat} (hfuel : items.length < fuel) (rest : List Symbol) :
    members string member first fuel
        ((separated first (items.map fun i => stringChars (name i) ++ ':' :: text i)).map .char ++
          .char '\x7d' :: rest) =
      .ok (items.map fun i => (name i, value i), .char '\x7d' :: rest) := by
  obtain ⟨fuel, rfl⟩ := Nat.exists_eq_succ_of_ne_zero (Nat.ne_of_gt (Nat.zero_lt_of_lt hfuel))
  induction items generalizing first fuel with
  | nil =>
      have hend := nextName?_end allBlank_nil first rest
      rw [List.nil_append] at hend
      rw [members, List.map_nil, separated, List.map_nil, List.nil_append, bind_of_ok hend]
      rfl
  | cons item items ih =>
      obtain ⟨fuel, rfl⟩ := Nat.exists_eq_succ_of_ne_zero
        (Nat.ne_of_gt (Nat.zero_lt_of_lt (Nat.lt_of_succ_lt_succ hfuel)))
      have hrest := stops_separated (items.map fun i => stringChars (name i) ++ ':' :: text i)
        (stops_closing rest (.inr rfl))
      have hmember := htakes item List.mem_cons_self [] _ allBlank_nil hrest
      have hmore := ih (fun i hi => htakes i (List.mem_cons_of_mem _ hi)) false fuel
        (by simpa using hfuel)
      have hblanks : AllBlank (List.map .char []) := allBlank_nil
      have hname := nextName?_name hblanks first (name item)
        ((':' :: text item).map .char ++ ((separated false (items.map fun i =>
          stringChars (name i) ++ ':' :: text i)).map .char ++ .char '\x7d' :: rest))
      rw [List.nil_append] at hname
      rw [members, List.map_cons, separated, ← List.append_assoc, ← List.append_assoc,
        List.map_append, List.map_append, List.append_assoc, List.append_assoc, bind_of_ok hname]
      exact (bind_of_ok hmember).trans (map_of_ok hmore _)

/-! ## Values -/

theorem Takes.within {read : Reader α} {text : List Char} {a : α} (h : Takes read text a)
    (step : Step) : Takes (Reader.within step read) text a := by
  intro blanks rest hblanks hrest
  rw [Reader.within, h blanks rest hblanks hrest]

theorem container_of_body {depth : Nat} {past : List Symbol → List Symbol} {close : Reader Unit}
    {body : Nat → Reader α} {s : Symbol} {text rest rest' : List Symbol} {a : α}
    (hbody : body depth text = .ok (a, rest)) (hclose : close rest = .ok ((), rest')) :
    container (depth + 1) past close body (s :: text) = .ok (a, rest') := by
  rw [container]
  simp only [List.tail_cons, hbody]
  rw [bind_of_ok hclose, pure_apply]

theorem closeList_apply (rest : List Symbol) : closeList (.char ']' :: rest) = .ok ((), rest) := rfl

theorem closeObject_apply (rest : List Symbol) :
    closeObject (.char '\x7d' :: rest) = .ok ((), rest) := rfl

theorem takes_array {depth : Nat} {items : List Json} {value : Json → Json}
    {arrange : List (String × Json) → List (String × Json)}
    (hbegins : ∀ item ∈ items, Begins item.chars)
    (htakes : ∀ item ∈ items, Takes (tree arrange depth) item.chars (value item)) :
    Takes (tree arrange (depth + 1)) (chars (.array items)) (.array (items.map value)) := by
  intro blanks rest hblanks hrest
  have hlength := length_le_separated (fun item hitem => (hbegins item hitem).ne_nil) true
  let text := (separated true (items.map chars)).map Symbol.char ++ .char ']' :: rest
  have hfuel : items.length < text.length + 1 := by
    simp only [text, List.length_append, List.length_map]
    omega
  have hbody := elements_separated hbegins
    (fun item hitem index => (htakes item hitem).within (.index index)) 0 hfuel rest
  have hremaining : remaining text = .ok (text.length, text) := rfl
  have htext : blanks ++ ((chars (.array items)).map .char ++ rest) =
      blanks ++ .char '[' :: text := by
    simp [text, chars, itemsChars_eq, commas_eq]
  rw [htext, tree, scalarOr, bind_of_ok (peekSolid?_blanks hblanks (by decide) _)]
  refine map_of_ok (container_of_body ?_ (closeList_apply rest)) Json.array
  rw [bind_of_ok hremaining]
  exact hbody

theorem takes_object {depth : Nat} {members : List (String × Json)} {value : Json → Json}
    {arrange : List (String × Json) → List (String × Json)}
    (htakes : ∀ m ∈ members, Takes (tree arrange depth) m.2.chars (value m.2)) :
    Takes (tree arrange (depth + 1)) (chars (.object members))
      (.object (arrange (members.map fun m => (m.1, value m.2)))) := by
  intro blanks rest hblanks hrest
  let part (m : String × Json) := stringChars m.1 ++ ':' :: m.2.chars
  have hpart : ∀ m ∈ members, part m ≠ [] := fun m _ => List.cons_ne_nil _ _
  have hlength := length_le_separated hpart true
  let text := (separated true (members.map part)).map Symbol.char ++ .char '\x7d' :: rest
  have hfuel : members.length < text.length + 1 := by
    simp only [text, List.length_append, List.length_map]
    omega
  let member (name : String) : Reader Json := do colon; Reader.within (.key name) (tree arrange depth)
  have hmember : ∀ m ∈ members, Takes (member m.1) (':' :: m.2.chars) (value m.2) :=
    fun m hm => ((htakes m hm).within (.key m.1)).afterColon
  have hbody := members_separated hmember true hfuel rest
  have hremaining : remaining text = .ok (text.length, text) := rfl
  have htext : blanks ++ ((chars (.object members)).map .char ++ rest) =
      blanks ++ .char '\x7b' :: text := by
    simp [text, part, chars, membersChars_eq, commas_eq]
  rw [htext, tree, scalarOr, bind_of_ok (peekSolid?_blanks hblanks (by decide) _)]
  refine map_of_ok (container_of_body ?_ (closeObject_apply rest)) Json.object
  rw [bind_of_ok hremaining, bind_of_ok hbody, pure_apply]

/-- The text of a readable value is read as that value, with its floats reread and its members in
order. -/
theorem takes_tree {depth : Nat} {j : Json} (h : Readable depth j) :
    Takes (tree sortMembers depth) j.chars j.reread.sorted := by
  induction h with
  | null depth => exact takes_tree_of_spells spells_null _ _
  | bool depth b => exact takes_tree_of_spells (spells_bool b) _ _
  | number depth hn => exact takes_tree_of_spells (spells_number_reread hn) _ _
  | string depth s => exact takes_tree_of_spells (spells_string s) _ _
  | @array depth items hitems ih =>
      rw [reread, sorted, sortedItems_reread]
      exact takes_array (fun item hitem => begins_chars (hitems item hitem)) ih
  | @object depth members hmembers ih =>
      rw [reread, sorted, sortedMembers_reread]
      exact @takes_object depth members (fun j => j.reread.sorted) sortMembers ih

end Reader

theorem ofText_compact (j : Json) : Symbol.ofText j.compact = j.chars.map .char := by
  rw [Symbol.ofText, compact, String.toList_ofList]

/-- A readable value is read from the front of a text that begins with its own. -/
theorem parsePrefix_compact {j : Json} (h : Readable Reader.depthLimit j) :
    parsePrefix (Symbol.ofText j.compact) = .ok j.reread.sorted := by
  have hread := Reader.takes_tree h [] [] Reader.allBlank_nil Reader.stops_nil
  rw [List.nil_append, List.append_nil] at hread
  rw [parsePrefix, Reader.runPrefix, ofText_compact, hread]

end Json

/-- The symbols of a text are the same whether or not it came as bytes. -/
theorem Symbol.ofBytes_ofText (s : String) : Symbol.ofBytes (Bytes.ofText s) = Symbol.ofText s := by
  rw [Symbol.ofBytes, Utf8.pieces_ofText, List.flatMap_map, Symbol.ofText]
  exact List.map_eq_flatMap.symm

end WalletEngine
