import WalletEngine.Json.Record
import WalletEngine.Proofs.Json.Scalars

/-! # Records in a text

The indented text of an object is read member by member. Each member fills the slot of its field, so
a record is read back if every field takes the text of its value, and refused as soon as one field
refuses it.
-/

namespace WalletEngine.Json

open Steps Reader

/-! ## Scalar decoders -/

namespace Decoder
variable {α β : Type}

theorem takes_scalar {expected : String} {convert : Json → Except Cause α} {text : List Char}
    {j : Json} {a : α} (h : Spells text j) (hconvert : convert j = .ok a) (depth : Nat) :
    Takes ((scalar expected convert).read depth) text a := by
  obtain ⟨c, cs, read, rfl, hc, hread, htakes⟩ := h
  intro blanks rest hblanks hrest
  have hjson := htakes rest hrest
  rw [List.map_cons, List.cons_append] at hjson ⊢
  simp only [scalar]
  rw [bind_of_ok (peekSolid?_blanks hblanks hc _)]
  simp only [hread]
  rw [bind_of_ok hjson, hconvert]
  rfl

theorem refuses_scalar {expected : String} {convert : Json → Except Cause α} {text : List Char}
    {j : Json} (h : Spells text j) (hconvert : ∃ cause, convert j = .error cause)
    (depth : Nat) : Refuses ((scalar expected convert).read depth) text := by
  obtain ⟨c, cs, read, rfl, hc, hread, htakes⟩ := h
  obtain ⟨cause, hconvert⟩ := hconvert
  intro blanks rest hblanks hrest
  have hjson := htakes rest hrest
  rw [List.map_cons, List.cons_append] at hjson ⊢
  simp only [scalar]
  rw [bind_of_ok (peekSolid?_blanks hblanks hc _)]
  simp only [hread]
  rw [bind_of_ok hjson, hconvert]
  exact ⟨_, rfl⟩

theorem takes_refine {d : Decoder α} {f : α → Except Cause β} {depth : Nat} {text : List Char}
    {a : α} {b : β} (h : Takes (d.read depth) text a) (hf : f a = .ok b) :
    Takes ((d.refine f).read depth) text b := by
  refine h.bind fun rest => ?_
  rw [hf]
  rfl

/-- Text that does not start like `null` is left to the decoder of the type. -/
theorem optional_read {d : Decoder α} {c : Char} (hc : isSpace (.char c) = false) (hn : c ≠ 'n')
    {blanks : List Symbol} (hblanks : AllBlank blanks) (rest : List Symbol) (depth : Nat) :
    d.optional.read depth (blanks ++ .char c :: rest) =
      (some <$> d.read depth) (.char c :: rest) := by
  simp only [optional]
  rw [bind_of_ok (peekSolid?_blanks hblanks hc rest)]
  simp only [Option.some.injEq, Symbol.char.injEq, hn, imp_self]

theorem takes_optional {d : Decoder α} {depth : Nat} {c : Char} {cs : List Char} {a : α}
    (hc : isSpace (.char c) = false) (hn : c ≠ 'n') (h : Takes (d.read depth) (c :: cs) a) :
    Takes (d.optional.read depth) (c :: cs) (some a) := by
  intro blanks rest hblanks hrest
  rw [List.map_cons, List.cons_append, optional_read hc hn hblanks]
  exact map_of_ok (h [] rest allBlank_nil hrest) some

theorem refuses_optional {d : Decoder α} {depth : Nat} {c : Char} {cs : List Char}
    (hc : isSpace (.char c) = false) (hn : c ≠ 'n') (h : Refuses (d.read depth) (c :: cs)) :
    Refuses (d.optional.read depth) (c :: cs) := by
  intro blanks rest hblanks hrest
  rw [List.map_cons, List.cons_append, optional_read hc hn hblanks]
  exact (h.map some) [] rest allBlank_nil hrest

theorem takes_optional_null (d : Decoder α) (depth : Nat) :
    Takes (d.optional.read depth) ['n', 'u', 'l', 'l'] none := by
  intro blanks rest hblanks hrest
  rw [List.map_cons, List.cons_append]
  simp only [optional]
  rw [bind_of_ok (peekSolid?_blanks hblanks (by decide) _)]
  simp only
  rw [bind_of_ok (skip_cons _ _), bind_of_ok (word_apply ['u', 'l', 'l'] rest)]
  rfl

end Decoder

/-! ## Members and their slots -/

/-- A member is accepted: its name is that of an empty slot, and the field takes its text. -/
def Slots.Accepts (fs : List Field) (depth : Nat) (slots : Slots fs) (name : String)
    (text : List Char) (next : Slots fs) : Prop :=
  ∃ read, slots.readMember depth name = some read ∧ Takes read (':' :: ' ' :: text) next

/-- A member is rejected: its name is that of an empty slot, and the field refuses its text. -/
def Slots.Rejects (fs : List Field) (depth : Nat) (slots : Slots fs) (name : String)
    (text : List Char) : Prop :=
  ∃ read, slots.readMember depth name = some read ∧ Refuses read (':' :: ' ' :: text)

namespace Slots
variable {f : Field} {fs : List Field} {depth : Nat} {name : String} {text : List Char}

theorem Accepts.here {value : f.Carrier} (hname : f.name = name)
    (h : Takes (f.decoder.read depth) text value) (slots : Slots fs) :
    Accepts (f :: fs) depth (none, slots) name text (some value, slots) := by
  refine ⟨_, if_pos hname, ?_⟩
  exact Takes.afterColon ((h.bind fun _ => rfl).blank (by decide))

theorem Accepts.there {slots next : Slots fs} (hname : f.name ≠ name)
    (h : slots.Accepts fs depth name text next) (slot : Option f.Carrier) :
    Accepts (f :: fs) depth (slot, slots) name text (slot, next) := by
  obtain ⟨read, hread, htakes⟩ := h
  refine ⟨(slot, ·) <$> read, ?_, htakes.map _⟩
  simp only [readMember, if_neg hname, hread, Option.map_some]

theorem Rejects.here (hname : f.name = name) (h : Refuses (f.decoder.read depth) text)
    (slots : Slots fs) : Rejects (f :: fs) depth (none, slots) name text := by
  refine ⟨_, if_pos hname, ?_⟩
  refine Refuses.afterColon (Refuses.blank ?_ (by decide))
  intro blanks rest hblanks hrest
  obtain ⟨fault, hfault⟩ := h blanks rest hblanks hrest
  exact ⟨fault, bind_of_error hfault⟩

theorem Rejects.there {slots : Slots fs} (hname : f.name ≠ name)
    (h : slots.Rejects fs depth name text) (slot : Option f.Carrier) :
    Rejects (f :: fs) depth (slot, slots) name text := by
  obtain ⟨read, hread, hrefuses⟩ := h
  refine ⟨(slot, ·) <$> read, ?_, hrefuses.map _⟩
  simp only [readMember, if_neg hname, hread, Option.map_some]

end Slots

/-- Members fill slots one after the other. -/
inductive Fill (fs : List Field) (depth : Nat) :
    Slots fs → List (String × List Char) → Slots fs → Prop
  | nil (slots : Slots fs) : Fill fs depth slots [] slots
  | cons {slots next filled : Slots fs} {name : String} {text : List Char}
      {members : List (String × List Char)} (haccepts : slots.Accepts fs depth name text next)
      (hfill : Fill fs depth next members filled) :
      Fill fs depth slots ((name, text) :: members) filled

theorem Fill.append {depth : Nat} {fs : List Field} {slots middle filled : Slots fs}
    {before after : List (String × List Char)} (hbefore : Fill fs depth slots before middle)
    (hafter : Fill fs depth middle after filled) :
    Fill fs depth slots (before ++ after) filled := by
  induction hbefore with
  | nil => exact hafter
  | cons haccepts _ ih => exact .cons haccepts (ih hafter)

/-! ## The text of an object -/

/-- The text of a member. -/
def memberChars (m : String × List Char) : List Char := stringChars m.1 ++ ':' :: ' ' :: m.2

/-- The texts of members with blanks in front of each and commas between them. -/
def memberLines (blanks : List Char) : Bool → List (String × List Char) → List Char
  | _, [] => []
  | first, m :: members =>
    (if first then [] else [',']) ++ (blanks ++ memberChars m) ++ memberLines blanks false members

theorem commas_memberLines (blanks : List Char) (m : String × List Char)
    (members : List (String × List Char)) :
    commas (((m :: members).map memberChars).map (blanks ++ ·)) =
      memberLines blanks true (m :: members) := by
  induction members generalizing m with
  | nil => simp [commas, memberLines]
  | cons next members ih =>
      have hnext := ih next
      simp only [List.map_cons] at hnext ⊢
      rw [commas, hnext]
      · simp [memberLines]
      · exact List.cons_ne_nil _ _

theorem allBlank_newLine (depth : Nat) : AllBlank ((newLine depth).map .char) := by
  rw [newLine, List.map_cons]
  refine AllBlank.cons (by decide) fun s hs => ?_
  rw [List.map_replicate] at hs
  rw [List.eq_of_mem_replicate hs]
  rfl

/-- What follows the value of a member does not continue a number. -/
theorem stops_memberLines (depth : Nat) (members : List (String × List Char))
    (rest : List Symbol) :
    Stops ((memberLines (newLine (depth + 1)) false members).map .char ++
      ((newLine depth).map .char ++ .char '\x7d' :: rest)) := by
  cases members with
  | nil => exact stops_cons _ (by decide)
  | cons m members => exact stops_cons _ (by decide)

namespace Reader

/-- The name of the next member. -/
theorem nextName?_name {blanks : List Char} (hblanks : AllBlank (blanks.map .char)) (first : Bool)
    (name : String) (rest : List Symbol) :
    nextName? first string
        (((if first then [] else [',']) ++ (blanks ++ stringChars name)).map .char ++ rest) =
      .ok (some name, rest) := by
  have hstring := string_stringChars name rest
  obtain ⟨cs, hcs⟩ : ∃ cs, stringChars name = '"' :: cs := ⟨_, rfl⟩
  rw [hcs, List.map_cons, List.cons_append] at hstring
  have hpeek : peekSolid? ((blanks ++ stringChars name).map .char ++ rest) =
      .ok (some (.char '"'), .char '"' :: (cs.map .char ++ rest)) := by
    rw [hcs, List.map_append, List.map_cons, List.append_assoc, List.cons_append,
      peekSolid?_blanks hblanks (by decide)]
  cases first with
  | true =>
      rw [nextName?, if_pos rfl, List.nil_append, bind_of_ok hpeek]
      simp only [if_true]
      exact map_of_ok hstring some
  | false =>
      rw [nextName?, if_neg (by decide), List.cons_append, List.map_cons, List.cons_append,
        bind_of_ok (peekSolid?_char (by decide) _)]
      change (skip >>= fun _ => (peekSolid? >>= _)) _ = _
      rw [bind_of_ok (skip_cons _ _), List.nil_append, bind_of_ok hpeek]
      exact map_of_ok hstring some

/-- The name of the next member, up to its colon. -/
theorem nextName?_member {blanks : List Char} (hblanks : AllBlank (blanks.map .char)) (first : Bool)
    (m : String × List Char) (rest : List Symbol) :
    nextName? first string
        (((if first then [] else [',']) ++ (blanks ++ memberChars m)).map .char ++ rest) =
      .ok (some m.1, (':' :: ' ' :: m.2).map .char ++ rest) := by
  rw [memberChars, ← List.append_assoc blanks, ← List.append_assoc, List.map_append,
    List.append_assoc]
  exact nextName?_name hblanks first m.1 _

theorem nextName?_end {blanks : List Symbol} (hblanks : AllBlank blanks) (first : Bool)
    (rest : List Symbol) :
    nextName? first string (blanks ++ .char '\x7d' :: rest) = .ok (none, .char '\x7d' :: rest) := by
  rw [nextName?, bind_of_ok (peekSolid?_blanks hblanks (by decide) rest)]
  rfl

end Reader

/-! ## Records -/

namespace Decoder
variable {α β : Type} {fs : List Field}

/-- A member that is accepted is read into its slot, and reading goes on behind it. -/
theorem readMembers_accepts {depth level : Nat} {slots next : Slots fs} {m : String × List Char}
    (haccepts : slots.Accepts fs depth m.1 m.2 next) (unknown : String → Reader β) (first : Bool)
    (fuel : Nat) (members : List (String × List Char)) (rest : List Symbol) :
    readMembers depth unknown first (fuel + 1) slots
        ((memberLines (newLine (level + 1)) first (m :: members)).map .char ++
          ((newLine level).map .char ++ .char '\x7d' :: rest)) =
      readMembers depth unknown false fuel next
        ((memberLines (newLine (level + 1)) false members).map .char ++
          ((newLine level).map .char ++ .char '\x7d' :: rest)) := by
  obtain ⟨read, hread, htakes⟩ := haccepts
  rw [memberLines, List.map_append, List.append_assoc, readMembers,
    bind_of_ok (nextName?_member (allBlank_newLine _) first m _)]
  simp only [hread]
  exact bind_of_ok (htakes [] _ allBlank_nil (stops_memberLines level members rest))

theorem readMembers_rejects {depth level : Nat} {slots : Slots fs} {name : String}
    {text : List Char} (hrejects : slots.Rejects fs depth name text)
    (unknown : String → Reader β) (first : Bool) (fuel : Nat) (members : List (String × List Char)) (rest : List Symbol) :
    ∃ fault, readMembers depth unknown first (fuel + 1) slots
      ((memberLines (newLine (level + 1)) first ((name, text) :: members)).map .char ++
        ((newLine level).map .char ++ .char '\x7d' :: rest)) = .error fault := by
  obtain ⟨read, hread, hrefuses⟩ := hrejects
  obtain ⟨fault, hfault⟩ :=
    hrefuses [] _ allBlank_nil (stops_memberLines level members rest)
  refine ⟨fault, ?_⟩
  rw [memberLines, List.map_append, List.append_assoc, readMembers,
    bind_of_ok (nextName?_member (allBlank_newLine _) first (name, text) _)]
  simp only [hread]
  exact bind_of_error hfault

/-- Members that are all accepted leave their slots filled at the end of the object. -/
theorem readMembers_fill {depth : Nat} {slots filled : Slots fs}
    {members : List (String × List Char)} (hfill : Fill fs depth slots members filled) (level : Nat)
    (unknown : String → Reader β) (first : Bool) {fuel : Nat} (hfuel : members.length < fuel)
    (rest : List Symbol) :
    readMembers depth unknown first fuel slots
        ((memberLines (newLine (level + 1)) first members).map .char ++
          ((newLine level).map .char ++ .char '\x7d' :: rest)) =
      .ok ((filled, []), .char '\x7d' :: rest) := by
  -- One unit of fuel is spent on each member and one on the end.
  induction hfill generalizing first fuel with
  | nil slots =>
      obtain ⟨fuel, rfl⟩ := Nat.exists_eq_succ_of_ne_zero (Nat.ne_of_gt hfuel)
      rw [readMembers, memberLines, List.map_nil, List.nil_append,
        bind_of_ok (nextName?_end (allBlank_newLine _) first rest)]
      rfl
  | cons haccepts hfill ih =>
      obtain ⟨fuel, rfl⟩ := Nat.exists_eq_succ_of_ne_zero (Nat.ne_of_gt (Nat.zero_lt_of_lt hfuel))
      rw [readMembers_accepts haccepts]
      exact ih false (by simpa using hfuel)

/-- A member that is rejected ends the reading, whatever was accepted before it. -/
theorem readMembers_refuse {depth : Nat} {slots filled : Slots fs}
    {before : List (String × List Char)} (hfill : Fill fs depth slots before filled)
    {name : String} {text : List Char} (hrejects : filled.Rejects fs depth name text)
    (after : List (String × List Char)) (level : Nat)
    (unknown : String → Reader β) (first : Bool) {fuel : Nat} (hfuel : before.length < fuel)
    (rest : List Symbol) :
    ∃ fault, readMembers depth unknown first fuel slots
      ((memberLines (newLine (level + 1)) first (before ++ (name, text) :: after)).map .char ++
        ((newLine level).map .char ++ .char '\x7d' :: rest)) = .error fault := by
  induction hfill generalizing first fuel with
  | nil slots =>
      obtain ⟨fuel, rfl⟩ := Nat.exists_eq_succ_of_ne_zero (Nat.ne_of_gt hfuel)
      exact readMembers_rejects hrejects unknown first fuel after rest
  | cons haccepts hfill ih =>
      obtain ⟨fuel, rfl⟩ := Nat.exists_eq_succ_of_ne_zero (Nat.ne_of_gt (Nat.zero_lt_of_lt hfuel))
      rw [List.cons_append, readMembers_accepts haccepts]
      exact ih hrejects false (by simpa using hfuel)

theorem length_le_memberLines (blanks : List Char) (first : Bool)
    (members : List (String × List Char)) :
    members.length ≤ (memberLines blanks first members).length := by
  induction members generalizing first with
  | nil => exact Nat.zero_le _
  | cons m members ih =>
      have hmore := ih false
      simp only [memberLines, memberChars, List.length_append, List.length_cons]
      omega

/-- The text of an object inside `level` containers. -/
def objectChars (level : Nat) (members : List (String × List Char)) : List Char :=
  lines level '\x7b' '\x7d' (members.map memberChars)

theorem objectChars_cons (level : Nat) (m : String × List Char)
    (members : List (String × List Char)) (rest : List Symbol) :
    (objectChars level (m :: members)).map .char ++ rest =
      .char '\x7b' :: ((memberLines (newLine (level + 1)) true (m :: members)).map .char ++
        ((newLine level).map .char ++ .char '\x7d' :: rest)) := by
  rw [objectChars, lines, if_neg (by simp), commas_memberLines]
  simp

variable {name : String} {build : Row fs → α} {depth level : Nat} {m : String × List Char}

/-- What is read between the braces of a record. -/
def recordBody (fs : List Field) (depth : Nat) : Reader (Row fs) := do
  let (slots, _) ← readMembers depth (fun _ => do colon; skipValue) true ((← remaining) + 1)
    (Slots.empty fs)
  finish slots

theorem readRecord_object (expected whole : String) {blanks : List Symbol}
    (hblanks : AllBlank blanks) (text : List Symbol) :
    readRecord expected whole fs (depth + 1) (blanks ++ .char '\x7b' :: text) =
      Reader.object (depth + 1) (recordBody fs) (.char '\x7b' :: text) := by
  rw [readRecord, bind_of_ok (peekSolid?_blanks hblanks (by decide) _)]
  rfl

theorem length_lt_remaining (level : Nat) (members : List (String × List Char)) (first : Bool)
    (tail : List Symbol) :
    members.length < ((memberLines (newLine (level + 1)) first members).map Symbol.char ++
      tail).length + 1 := by
  have hlength := length_le_memberLines (newLine (level + 1)) first members
  rw [List.length_append, List.length_map]
  omega

/-- A record is read back from an object whose members fill its slots. -/
theorem takes_record {members : List (String × List Char)} {filled : Slots fs} {row : Row fs}
    {a : α} (hfill : Fill fs depth (Slots.empty fs) (m :: members) filled)
    (hrow : filled.complete = .ok row) (hbuild : build row = a) :
    Takes ((record name fs build).read (depth + 1)) (objectChars level (m :: members)) a := by
  intro blanks rest hblanks hrest
  have hbody : recordBody fs depth
      ((memberLines (newLine (level + 1)) true (m :: members)).map .char ++
        ((newLine level).map .char ++ .char '\x7d' :: rest)) =
      .ok (row, .char '\x7d' :: rest) := by
    have hremaining : ∀ text, remaining text = .ok (text.length, text) := fun _ => rfl
    rw [recordBody, bind_of_ok (hremaining _),
      bind_of_ok (readMembers_fill hfill level _ true (length_lt_remaining _ _ _ _) rest)]
    simp only [finish, hrow]
    rfl
  rw [← hbuild]
  refine map_of_ok ?_ build
  rw [objectChars_cons, readRecord_object _ _ hblanks, Reader.object, container]
  simp only [List.tail_cons, hbody]
  rfl

/-- A record is refused if one of its fields refuses the text of its member. -/
theorem refuses_record {before members : List (String × List Char)} {filled : Slots fs}
    {field : String} {text : List Char} (hfill : Fill fs depth (Slots.empty fs) before filled)
    (hrejects : filled.Rejects fs depth field text) (after : List (String × List Char))
    (hmembers : members = before ++ (field, text) :: after) :
    Refuses ((record name fs build).read (depth + 1)) (objectChars level members) := by
  refine Refuses.map ?_ build
  intro blanks rest hblanks hrest
  obtain ⟨first, others, hfirst⟩ : ∃ first others, members = first :: others :=
    List.exists_cons_of_ne_nil (by simp [hmembers])
  obtain ⟨fault, hfault⟩ : ∃ fault, recordBody fs depth
      ((memberLines (newLine (level + 1)) true (before ++ (field, text) :: after)).map .char ++
        ((newLine level).map .char ++ .char '\x7d' :: rest)) = .error fault := by
    have hremaining : ∀ text, remaining text = .ok (text.length, text) := fun _ => rfl
    obtain ⟨fault, hfault⟩ := readMembers_refuse hfill hrejects after level
      (fun _ => do colon; skipValue) true (Nat.lt_of_le_of_lt (by simp)
        (length_lt_remaining level (before ++ (field, text) :: after) true
          ((newLine level).map .char ++ .char '\x7d' :: rest))) rest
    refine ⟨fault, ?_⟩
    rw [recordBody, bind_of_ok (hremaining _)]
    exact bind_of_error hfault
  rw [← hmembers, hfirst] at hfault
  rw [hfirst]
  rw [objectChars_cons, readRecord_object _ _ hblanks, Reader.object, container]
  simp only [List.tail_cons, hfault]
  split
  next heq => exact ⟨_, rfl⟩
  next => exact ⟨_, rfl⟩
  next heq => cases heq

/-! ## Whole texts -/

/-- A text that is taken is read as a whole. -/
theorem decode_of_takes {d : Decoder α} {text : List Char} {a : α}
    (h : Takes (d.read depthLimit) text a) : d.decode (text.map .char) = .ok a := by
  have hread := h [] [] allBlank_nil stops_nil
  rw [List.nil_append, List.append_nil] at hread
  rw [decode, run, bind_of_ok hread]
  rfl

theorem decode_of_refuses {d : Decoder α} {text : List Char}
    (h : Refuses (d.read depthLimit) text) :
    ∃ problem, d.decode (text.map .char) = .error problem := by
  obtain ⟨fault, hread⟩ := h [] [] allBlank_nil stops_nil
  rw [List.nil_append, List.append_nil] at hread
  refine ⟨fault.settle (text.map .char), ?_⟩
  rw [decode, run, bind_of_error hread]

end Decoder
end WalletEngine.Json
