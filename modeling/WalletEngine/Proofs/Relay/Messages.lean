import WalletEngine.Proofs.Json.Variants
import WalletEngine.Proofs.Relay.Requests

/-! # Which messages are requests

A message is documented to be an object: its kind stands under the tag, and a transfer to be signed
under its own name. The reader also takes a list of the kind and what belongs to it. A refusal looks for
the kind of an object only, so it calls every other list a message without a kind.
-/

namespace WalletEngine

open Json Decoder Steps

/-- A transfer is taken from content that was kept as from a value. -/
theorem Transfer.ofTree_kept_iff {j : Json} {t : Transfer} :
    Transfer.decoder.ofTree .kept j = .ok t ↔ Transfer.decoder.decodeTree j = .ok t := by
  have hfields : ∀ f ∈ Transfer.fields, ∀ j,
      f.decoder.ofTree .kept j = f.decoder.ofTree .value j := by
    intro f hf j
    simp only [Transfer.fields, List.mem_cons, List.not_mem_nil, or_false] at hf
    rcases hf with rfl | rfl | rfl | rfl | rfl <;> rfl
  rw [decodeTree_eq_ok_iff, Transfer.decoder, record]
  simp only [map_eq_ok_iff, takeRecord_kept_iff hfields]

namespace Relay

theorem Kind.named?_eq_some_iff {name : String} {kind : Kind} :
    Kind.named? name = some kind ↔ kind.name = name := by
  constructor
  · intro h
    simpa using List.find?_some h
  · rintro rfl
    cases kind <;> rfl

theorem Kind.isSome_named?_iff {name : String} :
    (Kind.named? name).isSome = true ↔ ∃ kind : Kind, kind.name = name := by
  rw [Option.isSome_iff_exists]
  simp only [Kind.named?_eq_some_iff]

namespace Request

variable {message : Json} {request : Request}

/-- The messages of a request that are documented: an object with the kind under its tag and, where a
transfer is to be signed, with the transfer under its name. Other members do not matter. -/
structure Documented (message : Json) (request : Request) : Prop where
  kind : message.member? "type" = some (.string request.kind.name)
  transfer : ∀ t, request = .sign t → ∃ body, message.member? "transaction" = some body ∧
    Transfer.decoder.decodeTree body = .ok t

/-- The messages of a request that are lists of its kind and what belongs to it. -/
inductive AsList : Json → Request → Prop
  | plain {request : Request} (hplain : request.kind ≠ .sign) :
      AsList (.array [.string request.kind.name]) request
  | sign {t : Transfer} {body : Json} (hbody : Transfer.decoder.decodeTree body = .ok t) :
      AsList (.array [.string Kind.sign.name, body]) (.sign t)

/-- The kind that a message claims: the text under its tag, or a text that says there is none. -/
def Claims (message : Json) (kind : String) : Prop :=
  message.member? "type" = some (.string kind) ∨
    (∀ s, message.member? "type" ≠ some (.string s)) ∧ kind = "<missing>"

/-! ## What is accepted -/

/-- The transfer is the only member that counts beside the tag. -/
theorem ofSignContent_object_iff {ms : List (String × Json)} (h : (ms.map Prod.fst).Nodup) :
    ofSignContent (.object (apart "type" ms)) = .ok request ↔ ∃ t, request = .sign t ∧
      ∃ body, ms.lookup "transaction" = some body ∧ Transfer.decoder.decodeTree body = .ok t := by
  have hother : "type" ∉ signFields.map Field.name := by decide
  rw [ofSignContent, bind_eq_ok_iff]
  simp only [← Transfer.ofTree_kept_iff]
  constructor
  · rintro ⟨⟨t, ⟨⟩⟩, htake, ⟨⟩⟩
    have htold := (told_apart hother ms _).mp ((takeRecord_iff_told (by decide)).mp htake)
    exact ⟨t, rfl, (required_tells_lookup h).mp htold.1⟩
  · rintro ⟨t, rfl, hbody⟩
    refine ⟨(t, ()), (takeRecord_iff_told (by decide)).mpr ((told_apart hother ms _).mpr ?_), rfl⟩
    exact ⟨(required_tells_lookup h).mpr hbody, trivial⟩

theorem ofSignContent_array_iff {items : List Json} :
    ofSignContent (.array items) = .ok request ↔ ∃ t, request = .sign t ∧
      ∃ body, items = [body] ∧ Transfer.decoder.decodeTree body = .ok t := by
  rw [ofSignContent, bind_eq_ok_iff]
  simp only [← Transfer.ofTree_kept_iff]
  constructor
  · rintro ⟨⟨t, ⟨⟩⟩, htake, ⟨⟩⟩
    have helements := takeRecord_array_iff.mp htake
    cases items with
    | nil => cases (takeElements_nil_iff.mp helements).1
    | cons body rest =>
        obtain ⟨hbody, hrest⟩ := takeElements_cons_iff.mp helements
        obtain rfl := takeElements_end_iff.mp hrest
        exact ⟨t, rfl, body, rfl, hbody⟩
  · rintro ⟨t, rfl, body, rfl, hbody⟩
    refine ⟨(t, ()), takeRecord_array_iff.mpr ?_, rfl⟩
    exact takeElements_cons_iff.mpr ⟨hbody, rfl⟩

/-- The kind that a tag names. -/
theorem find_eq_ok_iff {name : String} {kind : Kind} :
    (match Kind.named? name with
      | some kind => Except.ok kind
      | none => Except.error (Cause.unknownVariant name (Kind.all.map Kind.name))) = .ok kind ↔
      kind.name = name := by
  rw [← Kind.named?_eq_some_iff]
  cases Kind.named? name with
  | none => exact iff_of_false (fun h => nomatch h) (fun h => nomatch h)
  | some found => rw [Except.ok.injEq, Option.some.injEq]

theorem kind_of_ofContent {kind : Kind} {content : Json}
    (h : ofContent kind content = .ok request) : request.kind = kind := by
  have hplain {plain : Request} (h : ofPlainContent plain content = .ok request) :
      request = plain := by
    unfold ofPlainContent at h
    split at h
    next => cases h
    next => exact (Except.ok.inj h).symm
  cases kind with
  | sign =>
      obtain ⟨_, -, ⟨⟩⟩ := bind_eq_ok_iff.mp h
      rfl
  | _ => exact congrArg Request.kind (hplain h)

theorem ofTree_object_iff {ms : List (String × Json)} (h : (ms.map Prod.fst).Nodup) :
    decoder.ofTree .value (.object ms) = .ok request ↔ Documented (.object ms) request := by
  refine (tagged_object_iff h).trans ?_
  constructor
  · rintro ⟨name, kind, htype, hname, hpayload⟩
    obtain rfl := find_eq_ok_iff.mp hname
    obtain rfl := kind_of_ofContent hpayload
    refine ⟨htype, ?_⟩
    rintro t rfl
    obtain ⟨_, ⟨⟩, hbody⟩ := (ofSignContent_object_iff h).mp hpayload
    exact hbody
  · rintro ⟨htype, htransfer⟩
    refine ⟨_, request.kind, htype, find_eq_ok_iff.mpr rfl, ?_⟩
    cases request with
    | sign t => exact (ofSignContent_object_iff h).mpr ⟨t, rfl, htransfer t rfl⟩
    | _ => rfl

theorem ofTree_array_iff {items : List Json} :
    decoder.ofTree .value (.array items) = .ok request ↔ AsList (.array items) request := by
  refine tagged_array_iff.trans ?_
  constructor
  · rintro ⟨name, kind, rest, rfl, hname, hpayload⟩
    obtain rfl := find_eq_ok_iff.mp hname
    obtain rfl := kind_of_ofContent hpayload
    cases request with
    | sign t =>
        obtain ⟨_, ⟨⟩, body, rfl, hbody⟩ := ofSignContent_array_iff.mp hpayload
        exact .sign hbody
    | _ =>
        cases rest with
        | nil => exact .plain nofun
        | cons => cases hpayload
  · rintro (⟨hplain⟩ | ⟨hbody⟩)
    · refine ⟨_, request.kind, [], rfl, find_eq_ok_iff.mpr rfl, ?_⟩
      cases request with
      | sign t => exact absurd rfl hplain
      | _ => rfl
    · refine ⟨_, .sign, _, rfl, ?_, ofSignContent_array_iff.mpr ⟨_, rfl, _, rfl, hbody⟩⟩
      exact find_eq_ok_iff.mpr (rfl : Kind.sign.name = Kind.sign.name)

/-- A message is read as a request if it is documented, or the list of one. -/
theorem ofTree_iff (h : message.IsSorted) :
    decoder.ofTree .value message = .ok request ↔
      Documented message request ∨ AsList message request := by
  cases message with
  | object ms =>
      rw [ofTree_object_iff (isSorted_object_iff.mp h).1.nodup]
      exact (or_iff_left nofun).symm
  | array items =>
      rw [ofTree_array_iff]
      exact (or_iff_right fun hdocumented => nomatch hdocumented.kind).symm
  | _ =>
      refine iff_of_false (fun h => nomatch h) ?_
      rintro (hdocumented | ⟨⟨⟩⟩)
      exact nomatch hdocumented.kind

/-! ## What is refused, and as what -/

theorem claims_iff {kind : String} : Claims message kind ↔ claimedKind message = kind := by
  rw [Claims, claimedKind]
  cases message.member? "type" with
  | none => simp [eq_comm]
  | some j => cases j <;> simp [text?, eq_comm]

theorem ofMessage_eq_ok_iff :
    ofMessage message = .ok request ↔ decoder.ofTree .value message = .ok request := by
  rw [ofMessage]
  cases decoder.ofTree .value message with
  | ok found => rw [Except.ok.injEq, Except.ok.injEq]
  | error cause =>
      constructor
      · intro h
        cases h
      · intro h
        cases h

/-- A message that is no request is refused for the kind that it claims. -/
theorem ofMessage_eq_error_iff {refusal : Refusal} :
    ofMessage message = .error refusal ↔ ∃ cause, decoder.ofTree .value message = .error cause ∧
      ((∃ kind : Kind, kind.name = claimedKind message) ∧
          refusal = .malformed (claimedKind message) cause ∨
        (¬∃ kind : Kind, kind.name = claimedKind message) ∧
          refusal = .unsupported (claimedKind message)) := by
  rw [ofMessage]
  cases decoder.ofTree .value message with
  | ok found =>
      constructor
      · intro h
        cases h
      · rintro ⟨_, ⟨⟩, -⟩
  | error cause =>
      simp only [Except.error.injEq, exists_eq_left', ← Kind.isSome_named?_iff]
      split
      next hknown => simp [hknown, eq_comm]
      next hknown => simp [hknown, eq_comm]

/-- No known kind has the text for a missing kind. -/
theorem ne_missing (kind : Kind) : kind.name ≠ "<missing>" := by
  cases kind <;> decide

theorem claims_of_known {kind : Kind} (h : kind.name = claimedKind message) :
    message.member? "type" = some (.string kind.name) := by
  rcases claims_iff.mpr h.symm with htype | ⟨-, hmissing⟩
  · exact htype
  · exact absurd hmissing (ne_missing kind)

/-- What has a kind under its tag is no list. -/
theorem not_asList {j : Json} (h : message.member? "type" = some j) : ¬AsList message request := by
  rintro (_ | _)
  · cases h
  · cases h

/-- A message that is neither documented nor the list of one is not read as a request. -/
theorem refused_iff (h : message.IsSorted) :
    (∃ cause, decoder.ofTree .value message = .error cause) ↔
      (∀ request, ¬Documented message request) ∧ ∀ request, ¬AsList message request := by
  rw [← forall_and]
  simp only [← not_or, ← ofTree_iff h]
  cases decoder.ofTree .value message with
  | ok found => exact iff_of_false (fun ⟨_, h⟩ => nomatch h) (fun h => h found rfl)
  | error cause => exact iff_of_true ⟨cause, rfl⟩ (fun _ h => nomatch h)

theorem malformed_iff (h : message.IsSorted) {name : String} :
    (∃ cause, ofMessage message = .error (.malformed name cause)) ↔
      (∃ kind : Kind, kind.name = name) ∧ message.member? "type" = some (.string name) ∧
        ∀ request, ¬Documented message request := by
  constructor
  · rintro ⟨cause, hrefused⟩
    obtain ⟨_, hcause, ⟨⟨kind, hkind⟩, ⟨⟩⟩ | ⟨-, ⟨⟩⟩⟩ := ofMessage_eq_error_iff.mp hrefused
    exact ⟨⟨kind, hkind⟩, hkind ▸ claims_of_known hkind, ((refused_iff h).mp ⟨cause, hcause⟩).1⟩
  · rintro ⟨hkind, htype, hnone⟩
    have hclaims : claimedKind message = name := claims_iff.mp (.inl htype)
    obtain ⟨cause, hcause⟩ := (refused_iff h).mpr ⟨hnone, fun _ => not_asList htype⟩
    refine ⟨cause, ofMessage_eq_error_iff.mpr ⟨cause, hcause, .inl ?_⟩⟩
    rw [hclaims]
    exact ⟨hkind, rfl⟩

theorem unsupported_iff (h : message.IsSorted) {name : String} :
    ofMessage message = .error (.unsupported name) ↔
      (∀ kind : Kind, message.member? "type" ≠ some (.string kind.name)) ∧
        (∀ request, ¬AsList message request) ∧ Claims message name := by
  constructor
  · intro hrefused
    obtain ⟨_, hcause, ⟨-, ⟨⟩⟩ | ⟨hunknown, ⟨⟩⟩⟩ := ofMessage_eq_error_iff.mp hrefused
    refine ⟨fun kind htype => ?_, ((refused_iff h).mp ⟨_, hcause⟩).2, claims_iff.mpr rfl⟩
    exact hunknown ⟨kind, (claims_iff.mp (.inl htype)).symm⟩
  · rintro ⟨hunknown, hlist, hclaims⟩
    have hnone (request : Request) : ¬Documented message request := fun hdocumented =>
      hunknown _ hdocumented.kind
    obtain ⟨cause, hcause⟩ := (refused_iff h).mpr ⟨hnone, hlist⟩
    refine ofMessage_eq_error_iff.mpr ⟨cause, hcause, .inr ⟨?_, ?_⟩⟩
    · rintro ⟨kind, hkind⟩
      exact hunknown kind (claims_of_known hkind)
    · rw [claims_iff.mp hclaims]

/-- A message is accepted if it is documented, or the list of one. It is malformed, in the kind under
its tag, if that is known but the message is not documented; and it is unsupported, with the kind that
it claims, if no known kind stands under its tag and it is not the list of a documented message. -/
theorem accepts_documented_and_lists (h : message.IsSorted) :
    (∀ request, ofMessage message = .ok request ↔
      Documented message request ∨ AsList message request) ∧
    (∀ name, (∃ cause, ofMessage message = .error (.malformed name cause)) ↔
      (∃ kind : Kind, kind.name = name) ∧ message.member? "type" = some (.string name) ∧
        ∀ request, ¬Documented message request) ∧
    ∀ name, ofMessage message = .error (.unsupported name) ↔
      (∀ kind : Kind, message.member? "type" ≠ some (.string kind.name)) ∧
        (∀ request, ¬AsList message request) ∧ Claims message name :=
  ⟨fun _ => ofMessage_eq_ok_iff.trans (ofTree_iff h), fun _ => malformed_iff h,
    fun _ => unsupported_iff h⟩

/-- A request to sign a transfer, with a member that does not matter. -/
def notedMessage (t : Transfer) : Json :=
  .object [("note", .string "for lunch"), ("transaction", t.toJson.sorted),
    ("type", .string Kind.sign.name)]

theorem isSorted_notedMessage (t : Transfer) : (notedMessage t).IsSorted := by
  refine isSorted_object_iff.mpr ⟨?_, ?_⟩
  · exact List.pairwise_map.mp (by decide : ["note", "transaction", "type"].Pairwise (· < ·))
  · simp only [List.forall_mem_cons]
    exact ⟨rfl, t.sorted_sorted_toJson, rfl, fun _ h => absurd h List.not_mem_nil⟩

/-- The request is accepted with its note, and malformed without its transfer. -/
theorem accepts_noted_message :
    let t : Transfer := ⟨"aa", "bb", .ofInt 1, 10, "n"⟩
    let bare := Json.object [("type", .string Kind.sign.name)]
    ((notedMessage t).IsSorted ∧ ofMessage (notedMessage t) = .ok (.sign t)) ∧
      bare.IsSorted ∧ ∃ cause, ofMessage bare = .error (.malformed Kind.sign.name cause) := by
  intro t bare
  have hnoted := isSorted_notedMessage t
  have hbare : bare.IsSorted := rfl
  have hdocumented : Documented (notedMessage t) (.sign t) := by
    refine ⟨rfl, ?_⟩
    rintro _ ⟨⟩
    exact ⟨_, rfl, decodeTree_eq_ok_iff.mpr (Transfer.ofTree_sorted .value t)⟩
  have hundocumented (request : Request) : ¬Documented bare request := by
    rintro ⟨hkind, htransfer⟩
    have hname := string.inj (Option.some.inj hkind)
    cases request with
    | sign t => obtain ⟨_, ⟨⟩, -⟩ := htransfer t rfl
    | _ => exact absurd hname (by decide)
  obtain ⟨haccepts, -⟩ := accepts_documented_and_lists hnoted
  obtain ⟨-, hmalformed, -⟩ := accepts_documented_and_lists hbare
  exact ⟨⟨hnoted, (haccepts _).mpr (.inl hdocumented)⟩, hbare,
    (hmalformed _).mpr ⟨⟨.sign, rfl⟩, rfl, hundocumented⟩⟩

/-- A list with nothing but the kind of a request is accepted, though it is not documented and has no
member `type`. -/
theorem bare_list_accepted :
    ofMessage (.array [.string Kind.walletStatus.name]) = .ok .walletStatus ∧
      ∀ request, ¬Documented (.array [.string Kind.walletStatus.name]) request :=
  ⟨rfl, fun _ h => nomatch h.kind⟩

end Request
end Relay
end WalletEngine
