import WalletEngine.Proofs.Json.Members
import WalletEngine.Proofs.Json.Trees
import WalletEngine.Proofs.Store.Image
import WalletEngine.Relay.Request

/-! # Requests as messages

The value that a request is written as, with its members in order, is the message of that request. Its
text is the message of the request with the amount as its digits are read, which is the same request
exactly if the amount reads back.
-/

namespace WalletEngine

open Json

/-! ## Taking members -/

namespace Json.Decoder

theorem takeMembers_cons {content : Content} {fs : List Field} {slots next : Slots fs}
    {name : String} {value : Json} (h : slots.takeMember content name value = some (.ok next))
    (rest : List (String × Json)) :
    takeMembers content slots ((name, value) :: rest) = takeMembers content next rest := by
  rw [takeMembers, h]
  rfl

end Json.Decoder

namespace Transfer

theorem sorted_toJson (t : Transfer) : t.toJson.sorted =
    .object [("amount", .float t.amount), ("from", .string t.sender), ("nonce", .string t.nonce),
      ("timestamp", .integer t.timestamp.toInt), ("to", .string t.recipient)] := by
  simp +decide only [toJson, members, sorted, sortedMembers, sortMembers, List.foldl_cons,
    List.foldl_nil, Json.insert, if_true, if_false, float, integer]

/-- A transfer is read back from its value. -/
theorem ofTree_sorted (content : Content) (t : Transfer) :
    decoder.ofTree content t.toJson.sorted = .ok t := by
  let before : Slots fields := (some t.sender, none, some t.amount, none, some t.nonce, ())
  let behind : Slots fields :=
    (some t.sender, none, some t.amount, some t.timestamp, some t.nonce, ())
  let filled : Slots fields :=
    (some t.sender, some t.recipient, some t.amount, some t.timestamp, some t.nonce, ())
  have htimestamp : before.takeMember content "timestamp" (.integer t.timestamp.toInt) =
      some (.ok behind) := by
    change some ((some t.sender, ·) <$> ((none, ·) <$> ((some t.amount, ·) <$> (do
      return (some (← Decoder.int64.ofTree content (.integer t.timestamp.toInt)), _))))) = _
    rw [Decoder.ofTree_int64]
    rfl
  have hmembers : Decoder.takeMembers content (Slots.empty fields)
      [("amount", .float t.amount), ("from", .string t.sender), ("nonce", .string t.nonce),
        ("timestamp", .integer t.timestamp.toInt), ("to", .string t.recipient)] =
      .ok (filled, []) := by
    refine (Decoder.takeMembers_cons rfl _).trans ?_
    refine (Decoder.takeMembers_cons rfl _).trans ?_
    refine (Decoder.takeMembers_cons rfl _).trans ?_
    refine (Decoder.takeMembers_cons htimestamp _).trans ?_
    exact Decoder.takeMembers_cons rfl _
  rw [sorted_toJson]
  change ofRow <$> (Decoder.takeMembers content (Slots.empty fields) _ >>= _) = _
  rw [hmembers]
  rfl

/-- The transfer with its amount as the digits are read. -/
def reread (t : Transfer) : Transfer := { t with amount := t.amount.reread }

theorem reread_sorted_toJson (t : Transfer) : t.toJson.sorted.reread = t.reread.toJson.sorted := by
  rw [sorted_toJson, sorted_toJson]
  rfl

theorem sorted_sorted_toJson (t : Transfer) : t.toJson.sorted.sorted = t.toJson.sorted := by
  rw [sorted_toJson]
  simp +decide only [sorted, sortedMembers, sortMembers, List.foldl_cons, List.foldl_nil,
    Json.insert, if_false, float, integer]

theorem readable_toJson {t : Transfer} (h : t.amount.isFinite = true) (depth : Nat) :
    Readable (depth + 1) t.toJson.sorted := by
  have htimestamp : (Number.integer t.timestamp.toInt).IsReadable :=
    ⟨t.timestamp.le_toInt, t.timestamp.toInt_lt.trans (by decide)⟩
  rw [sorted_toJson]
  refine .object fun m hm => ?_
  simp only [List.mem_cons, List.not_mem_nil, or_false] at hm
  rcases hm with rfl | rfl | rfl | rfl | rfl
  · exact .number depth h
  · exact .string depth _
  · exact .string depth _
  · exact .number depth htimestamp
  · exact .string depth _

end Transfer

namespace Relay.Request

theorem sorted_sign (t : Transfer) : (sign t).toJson.sorted =
    .object [("transaction", t.toJson.sorted), ("type", .string Kind.sign.name)] := by
  simp +decide only [toJson, kind, Kind.name, sorted, sortedMembers, sortMembers, List.foldl_cons,
    List.foldl_nil, Json.insert, if_true, if_false]

theorem ofContent_sign (t : Transfer) :
    ofContent .sign (.object [("transaction", t.toJson.sorted)]) = .ok (.sign t) := by
  let filled : Slots signFields := (some t, ())
  have htransaction : (Slots.empty signFields).takeMember .kept "transaction" t.toJson.sorted =
      some (.ok filled) := by
    change some (do return (some (← Transfer.decoder.ofTree .kept t.toJson.sorted), _)) = _
    rw [Transfer.ofTree_sorted]
    rfl
  have hmembers := Decoder.takeMembers_cons htransaction []
  change ((Decoder.takeMembers .kept (Slots.empty signFields)
    [("transaction", t.toJson.sorted)] >>= _) >>= _) = _
  rw [hmembers]
  rfl

/-- The value of a request is its message. -/
theorem ofMessage_sorted (r : Request) : ofMessage r.toJson.sorted = .ok r := by
  have hdecoded : decoder.ofTree .value r.toJson.sorted = .ok r := by
    cases r with
    | sign t =>
        rw [sorted_sign]
        exact ofContent_sign t
    | _ => rfl
  rw [ofMessage, hdecoded]

/-! ## Texts of requests -/

/-- The request with its amount, if it has one, as the digits are read. -/
def reread : Request → Request
  | .sign t => .sign t.reread
  | r => r

/-- The amount, if there is one, is finite. -/
def IsFinite : Request → Prop
  | .sign t => t.amount.isFinite = true
  | _ => True

/-- The amount, if there is one, is read as itself. -/
def ReadsBack : Request → Prop
  | .sign t => t.amount.ReadsBack
  | _ => True

theorem reread_eq_iff {r : Request} (h : r.IsFinite) : r.reread = r ↔ r.ReadsBack := by
  cases r with
  | sign t =>
      have hback : t.amount.ReadsBack ↔ t.amount.reread = t.amount :=
        Binary64.readsBack_iff.trans (and_iff_right h)
      rw [ReadsBack, hback]
      refine ⟨fun hsame => congrArg Transfer.amount (sign.inj hsame), fun hsame => ?_⟩
      rw [reread, Transfer.reread, hsame]
  | _ => exact iff_of_true rfl trivial

theorem reread_sorted_toJson (r : Request) :
    r.toJson.sorted.reread.sorted = r.reread.toJson.sorted := by
  cases r with
  | sign t =>
      have hreread : (sign t).toJson.sorted.reread = (sign t.reread).toJson.sorted := by
        rw [sorted_sign, sorted_sign, ← Transfer.reread_sorted_toJson]
        rfl
      rw [hreread, reread, sorted_sign]
      simp +decide only [sorted, sortedMembers, sortMembers, List.foldl_cons, List.foldl_nil,
        Json.insert, if_false, Transfer.sorted_sorted_toJson]
  | _ => rfl

theorem readable_toJson {r : Request} (h : r.IsFinite) (depth : Nat) :
    Readable (depth + 2) r.toJson.sorted := by
  cases r with
  | sign t =>
      rw [sorted_sign]
      refine .object fun m hm => ?_
      simp only [List.mem_cons, List.not_mem_nil, or_false] at hm
      rcases hm with rfl | rfl
      · exact Transfer.readable_toJson h depth
      · exact .string _ _
  | _ =>
      refine .object fun m hm => ?_
      rw [List.mem_singleton.mp hm]
      exact .string _ _

/-- The text of a request is read as the message of the request reread. -/
theorem parsePrefix_text {r : Request} (h : r.IsFinite) :
    parsePrefix (Symbol.ofBytes (Bytes.ofText r.toJson.sorted.compact)) =
      .ok r.reread.toJson.sorted := by
  rw [Symbol.ofBytes_ofText, parsePrefix_compact (readable_toJson h 125), reread_sorted_toJson]

end Relay.Request
end WalletEngine
