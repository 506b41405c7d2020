import WalletEngine.Proofs.Ledger.Exchanges
import WalletEngine.Proofs.Transfer.Canonical

/-! # What is handed in carries what was signed

The text of a signed transfer is that of its body with one more member in front of the last brace. In
the text of a string no comma stands in front of a quote, unless the string ends there. So the last
place that looks like the start of the signature is that member, and whoever has nothing but the text
finds the bytes that were signed.
-/

namespace WalletEngine

open Steps

namespace Json

/-! ## One more member -/

theorem commas_concat {parts : List (List Char)} (h : parts ≠ []) (part : List Char) :
    commas (parts ++ [part]) = commas parts ++ ',' :: part := by
  induction parts with
  | nil => exact absurd rfl h
  | cons first rest ih =>
      cases rest with
      | nil => rfl
      | cons second rest =>
          have hmore := ih (List.cons_ne_nil _ _)
          change first ++ ',' :: commas (second :: rest ++ [part]) =
            (first ++ ',' :: commas (second :: rest)) ++ _
          rw [hmore, List.append_assoc, List.cons_append]

/-- The text of an object up to its last brace. -/
def openChars (ms : List (String × Json)) : List Char := '\x7b' :: commas (membersChars ms)

theorem chars_object (ms : List (String × Json)) : (object ms).chars = openChars ms ++ ['\x7d'] := rfl

theorem openChars_concat {ms : List (String × Json)} (h : ms ≠ []) (name : String) (value : Json) :
    openChars (ms ++ [(name, value)]) =
      openChars ms ++ (',' :: stringChars name ++ ':' :: value.chars) := by
  have hparts := (List.map_eq_nil_iff (f := fun m : String × Json =>
    stringChars m.1 ++ ':' :: m.2.chars)).not.mpr h
  rw [openChars, openChars, membersChars_eq, membersChars_eq, List.map_append, List.map_singleton,
    commas_concat hparts]
  rfl

/-! ## The last place of a mark -/

/-- What stands in front of the last place at which a mark begins. -/
def beforeLast (mark : List Char) : List Char → Option (List Char)
  | [] => none
  | c :: text =>
    match beforeLast mark text with
    | some front => some (c :: front)
    | none => if mark.isPrefixOf (c :: text) then some [] else none

section BeforeLast
variable {mark text : List Char} {c : Char}

theorem beforeLast_cons_eq_none_iff :
    beforeLast mark (c :: text) = none ↔ beforeLast mark text = none ∧ ¬mark <+: c :: text := by
  rw [beforeLast]
  cases beforeLast mark text with
  | some front => exact iff_of_false (fun h => nomatch h) (fun h => nomatch h.1)
  | none => simp

theorem beforeLast_append (front : List Char) (hlast : beforeLast mark text = none)
    (hmark : mark <+: c :: text) : beforeLast mark (front ++ c :: text) = some front := by
  induction front with
  | nil =>
      rw [List.nil_append, beforeLast, hlast]
      exact if_pos (List.isPrefixOf_iff_prefix.mpr hmark)
  | cons d front ih => rw [List.cons_append, beforeLast, ih]

/-- A part without the first character of the mark does not hide one. -/
theorem beforeLast_append_of_notMem {part : List Char} (hpart : c ∉ part)
    (h : beforeLast (c :: mark) text = none) : beforeLast (c :: mark) (part ++ text) = none := by
  induction part with
  | nil => exact h
  | cons d part ih =>
      rw [List.mem_cons, not_or] at hpart
      refine beforeLast_cons_eq_none_iff.mpr ⟨ih hpart.2, fun hmark => hpart.1 ?_⟩
      exact (List.cons_prefix_cons.mp hmark).1

end BeforeLast

/-! ## Escaped text -/

/-- A character is written behind a backslash, without a comma, or it is written as itself and is no
quote. -/
theorem escapeChar_cases (c : Char) : (∃ rest, escapeChar c = '\\' :: rest ∧ ',' ∉ rest) ∨
    escapeChar c = [c] ∧ c ≠ '"' := by
  have hdigits : ∀ n < 0x20, ',' ∉ ['u', '0', '0'] ++ (Text.hexDigits (n / 16) ++
      Text.hexDigits (n % 16)) := by decide
  unfold escapeChar
  split
  next hescaped =>
    refine .inl ⟨[c], rfl, ?_⟩
    rcases (by simpa using hescaped : c = '"' ∨ c = '\\') with rfl | rfl <;> decide
  next hplain =>
  split
  next => exact .inl ⟨['b'], rfl, by decide⟩
  split
  next => exact .inl ⟨['f'], rfl, by decide⟩
  split
  next => exact .inl ⟨['n'], rfl, by decide⟩
  split
  next => exact .inl ⟨['r'], rfl, by decide⟩
  split
  next => exact .inl ⟨['t'], rfl, by decide⟩
  split
  next hcontrol => exact .inl ⟨_, rfl, hdigits _ hcontrol⟩
  next => exact .inr ⟨rfl, fun hquote => hplain (by simp [hquote])⟩

/-- What is written for a character does not start with a quote. -/
theorem not_quote_start (c : Char) (mark text : List Char) :
    ¬ '"' :: mark <+: escapeChar c ++ text := by
  rcases escapeChar_cases c with ⟨rest, hc, -⟩ | ⟨hc, hquote⟩
  · rw [hc, List.cons_append, List.cons_prefix_cons]
    exact fun h => absurd h.1 (by decide)
  · rw [hc, List.cons_append, List.cons_prefix_cons]
    exact fun h => hquote h.1.symm

end Json

namespace Transfer

open Json

/-- The start of the member with the signature. -/
def signatureMark : List Char := ',' :: stringChars "signature" ++ [':']

/-- The signature starts nowhere in what is written for a string at the end of an object. -/
theorem beforeLast_escaped (cs : List Char) :
    beforeLast signatureMark (cs.flatMap escapeChar ++ ['"', '\x7d']) = none := by
  induction cs with
  | nil => decide
  | cons c cs ih =>
      rw [List.flatMap_cons, List.append_assoc]
      by_cases hcomma : c = ','
      · subst hcomma
        refine beforeLast_cons_eq_none_iff.mpr ⟨ih, fun hmark => ?_⟩
        have hquote := (List.cons_prefix_cons.mp hmark).2
        cases cs with
        | nil => exact absurd hquote (by decide)
        | cons d cs =>
            rw [List.flatMap_cons, List.append_assoc] at hquote
            exact not_quote_start d _ _ hquote
      · refine beforeLast_append_of_notMem ?_ ih
        rcases escapeChar_cases c with ⟨rest, hc, hrest⟩ | ⟨hc, -⟩
        · rw [hc, List.mem_cons, not_or]
          exact ⟨by decide, hrest⟩
        · rw [hc, List.mem_singleton]
          exact Ne.symm hcomma

theorem beforeLast_signature (front : List Char) (g : String) :
    beforeLast signatureMark (front ++ (signatureMark ++ stringChars g ++ ['\x7d'])) =
      some front := by
  have hname : ',' ∉ stringChars "signature" ++ [':', '"'] := by decide
  have hlast := beforeLast_append_of_notMem hname (beforeLast_escaped g.toList)
  have htext : signatureMark ++ stringChars g ++ ['\x7d'] =
      ',' :: (stringChars "signature" ++ [':', '"'] ++
        (g.toList.flatMap escapeChar ++ ['"', '\x7d'])) := by
    simp [signatureMark, stringChars]
  rw [htext]
  refine beforeLast_append front hlast ?_
  rw [← htext, List.append_assoc]
  exact List.prefix_append _ _

/-! ## What is handed in -/

/-- The text of a signed transfer without its signature: what stands in front of the last place that
looks like the start of one, and the brace. -/
def withoutSignature (text : String) : Option String :=
  (beforeLast signatureMark text.toList).map fun front => String.ofList (front ++ ['\x7d'])

theorem chars_signed (t : Transfer) (g : String) : (t.signed g).toJson.chars =
    openChars t.members ++ (signatureMark ++ stringChars g ++ ['\x7d']) := by
  rw [SignedTransfer.toJson, chars_object, openChars_concat (by simp [members])]
  simp [signatureMark, chars, signed]

theorem withoutSignature_signed (t : Transfer) (g : String) :
    withoutSignature (t.signed g).toJson.compact = some t.toJson.compact := by
  rw [withoutSignature, compact, String.toList_ofList, chars_signed, beforeLast_signature]
  rfl

/-- The bytes that are signed are those of the body up to its last brace, and that brace. -/
theorem canonical_eq (t : Transfer) :
    Keyring.canonical t.toJson = (openChars t.members).flatMap String.utf8EncodeChar ++ [0x7d] := by
  rw [Keyring.canonical, compact, Bytes.ofText_ofList, toJson, chars_object, List.flatMap_append]
  rfl

theorem ofText_signed (t : Transfer) (g : String) :
    Bytes.ofText (t.signed g).toJson.compact = (Keyring.canonical t.toJson).dropLast ++
      (Bytes.ofText ",\"signature\":" ++ Bytes.ofText (Json.string g).compact ++ [0x7d]) := by
  have hmark : String.ofList signatureMark = ",\"signature\":" := by decide
  have hbrace : ['\x7d'].flatMap String.utf8EncodeChar = [0x7d] := by decide
  rw [canonical_eq, List.dropLast_concat, compact, Bytes.ofText_ofList, chars_signed,
    List.flatMap_append, List.flatMap_append, List.flatMap_append, hbrace, ← hmark,
    Bytes.ofText_ofList, compact, Bytes.ofText_ofList, chars]

/-- A call fails before anything is sent, or all that it does is one exchange, which posts `body`. -/
def Posts {σ α : Type} (exchange : Http.Exchange (StateM σ)) (body : String) (st : σ)
    (out : Except Ledger.Fault α × σ) : Prop :=
  ((∃ reason, out.1 = .error (.transport reason)) ∧ out.2 = st) ∨
    ∃ request response?, (exchange request).run st = (response?, out.2) ∧
      request.method = .post ∧ request.body = some body

/-- To hand in a record is to post its text. -/
theorem submit_posts {σ : Type} (names : Http.Names) (exchange : Http.Exchange (StateM σ))
    (servers : Ledger.Servers) (st : σ) (record : SignedTransfer) :
    Posts exchange record.toJson.compact st
      (((Ledger.overHttp names exchange servers).submit record).run st) := by
  have hbody {request : Http.Request}
      (h : Ledger.requestTo names .post (servers.node ++ "/transaction") (some record.toJson) =
        some request) : request.method = .post ∧ request.body = some record.toJson.compact := by
    obtain ⟨url, -, rfl⟩ := Option.map_eq_some_iff.mp h
    exact ⟨rfl, rfl⟩
  have hcomes := Ledger.comes_submit names exchange servers st record
  generalize ((Ledger.overHttp names exchange servers).submit record).run st = out at hcomes
  cases hcomes with
  | unsent reason => exact .inl ⟨⟨reason, rfl⟩, rfl⟩
  | unanswered reason hrequest hexchange => exact .inr ⟨_, _, hexchange, hbody hrequest⟩
  | answered hrequest hexchange => exact .inr ⟨_, _, hexchange, hbody hrequest⟩

/-- The text of a signed transfer is what was signed without its last brace, the signature as one more
member, and a brace; the body is still the one that was signed. Whoever has that text alone finds the
bytes that were signed, and that text is what is posted when the record is handed in. -/
theorem posted_carries_signed (t : Transfer) (g : String) :
    let signed := Keyring.canonical t.toJson
    let posted := (t.signed g).toJson.compact
    (signed.getLast? = some 0x7d ∧ Bytes.ofText posted = signed.dropLast ++
      (Bytes.ofText ",\"signature\":" ++ Bytes.ofText (Json.string g).compact ++ [0x7d])) ∧
    (t.signed g).unsigned = t ∧
    (withoutSignature posted).map Bytes.ofText = some signed ∧
    ∀ {σ : Type} (names : Http.Names) (exchange : Http.Exchange (StateM σ))
      (servers : Ledger.Servers) (st : σ),
      Posts exchange posted st
        (((Ledger.overHttp names exchange servers).submit (t.signed g)).run st) := by
  intro signed posted
  refine ⟨⟨?_, ofText_signed t g⟩, rfl, ?_, fun names exchange servers st =>
    submit_posts names exchange servers st (t.signed g)⟩
  · change (Keyring.canonical t.toJson).getLast? = _
    rw [canonical_eq, List.getLast?_concat]
  · change (withoutSignature (t.signed g).toJson.compact).map Bytes.ofText = _
    rw [withoutSignature_signed]
    rfl

end Transfer
end WalletEngine
