import WalletEngine.Store.Basic
import WalletEngine.Proofs.Json.Answers
import WalletEngine.Proofs.Json.Records
import WalletEngine.Proofs.Time.RoundTrip

/-! # What is stored can be read

The text of an image is read back field by field; only the balance may come back as another number.
It comes back as a finite one if it was finite. A balance that is not finite is written as `null`,
and no image can be read from that text.
-/

namespace WalletEngine

open Json Steps Reader Decoder

/-! ## Values of fields -/

namespace Json

theorem takes_bool (b : Bool) (depth : Nat) : Takes (Decoder.bool.read depth) (boolChars b) b := by
  unfold Decoder.bool
  refine takes_scalar (spells_bool b) ?_ depth
  rfl

theorem takes_string (s : String) (depth : Nat) :
    Takes (Decoder.string.read depth) (stringChars s) s := by
  unfold Decoder.string
  refine takes_scalar (spells_string s) ?_ depth
  rfl

theorem takes_natural {expected : String} {high : Int} {α : Type} {convert : Int → α} {n : Nat}
    {a : α} (hn : (n : Int) ≤ high) (hfit : n < UInt64.size) (hconvert : convert n = a)
    (depth : Nat) :
    Takes ((Decoder.integer expected 0 high convert).read depth) (numberChars (.integer n)) a := by
  have hwithin : (decide ((0 : Int) ≤ n) && decide ((n : Int) ≤ high)) = true := by
    simp only [Bool.and_eq_true, decide_eq_true_eq]
    omega
  unfold Decoder.integer
  refine takes_scalar (spells_natural hfit) ?_ depth
  exact (if_pos hwithin).trans (congrArg Except.ok hconvert)

theorem takes_uint64 (n : UInt64) (depth : Nat) :
    Takes (uint64.read depth) (numberChars (.integer n.toNat)) n :=
  takes_natural (Int.le_sub_one_of_lt (Int.ofNat_lt.mpr n.toNat_lt)) n.toNat_lt (by simp) depth

theorem takes_uint16 (n : UInt16) (depth : Nat) :
    Takes (uint16.read depth) (numberChars (.integer n.toNat)) n :=
  takes_natural (Int.le_sub_one_of_lt (Int.ofNat_lt.mpr n.toNat_lt))
    (Nat.lt_trans n.toNat_lt (by decide)) (by simp) depth

theorem takes_float {x y : Binary64} (h : Spells (numberChars (.float x)) (.number (.float y)))
    (depth : Nat) : Takes (Decoder.float.read depth) (numberChars (.float x)) y := by
  unfold Decoder.float
  refine takes_scalar h ?_ depth
  rfl

/-- A number that is not finite is written as `null`, which is no number. -/
theorem refuses_float {x : Binary64} (hx : x.isFinite = false) (depth : Nat) :
    Refuses (Decoder.float.read depth) (numberChars (.float x)) := by
  have hnull : numberChars (.float x) = ['n', 'u', 'l', 'l'] := by
    rw [numberChars, hx]
    rfl
  rw [hnull]
  unfold Decoder.float
  exact refuses_scalar spells_null ⟨_, rfl⟩ depth

theorem prettyChars_object (level : Nat) (members : List (String × Json)) :
    prettyChars level (.object members) =
      objectChars level (members.map fun m => (m.1, m.2.prettyChars (level + 1))) := by
  have hmembers : ∀ members : List (String × Json), prettyMembers (level + 1) members =
      (members.map fun m => (m.1, m.2.prettyChars (level + 1))).map memberChars := by
    intro members
    induction members with
    | nil => rfl
    | cons m members ih =>
        obtain ⟨name, value⟩ := m
        rw [prettyMembers, ih]
        rfl
  rw [prettyChars, objectChars, hmembers]

theorem prettyChars_object_cons (level : Nat) (m : String × Json)
    (members : List (String × Json)) :
    ∃ cs, prettyChars level (.object (m :: members)) = '\x7b' :: cs := by
  rw [prettyChars_object, objectChars, lines, if_neg (by simp)]
  exact ⟨_, rfl⟩

variable {α : Type} {d : Decoder α} {depth level : Nat}

theorem takes_optional_object {m : String × Json} {members : List (String × Json)} {a : α}
    (h : Takes (d.read depth) (prettyChars level (.object (m :: members))) a) :
    Takes (d.optional.read depth) (prettyChars level (.object (m :: members))) (some a) := by
  obtain ⟨cs, hcs⟩ := prettyChars_object_cons level m members
  rw [hcs] at h ⊢
  exact takes_optional (by decide) (by decide) h

theorem refuses_optional_object {m : String × Json} {members : List (String × Json)}
    (h : Refuses (d.read depth) (prettyChars level (.object (m :: members)))) :
    Refuses (d.optional.read depth) (prettyChars level (.object (m :: members))) := by
  obtain ⟨cs, hcs⟩ := prettyChars_object_cons level m members
  rw [hcs] at h ⊢
  exact refuses_optional (by decide) (by decide) h

/-- A digit is no blank and starts no word. -/
theorem takes_optional_natural {n : Nat} {a : α}
    (h : Takes (d.read depth) (numberChars (.integer n)) a) :
    Takes (d.optional.read depth) (numberChars (.integer n)) (some a) := by
  have htext : numberChars (.integer n) = Nat.toDigits 10 n := Nat.toList_repr
  obtain ⟨c, cs, hcs⟩ := List.exists_cons_of_ne_nil (Nat.toDigits_ne_nil (b := 10) (n := n))
  have hc : c.isDigit = true :=
    Nat.isDigit_of_mem_toDigits (by decide) (by decide) (hcs ▸ List.mem_cons_self)
  rw [htext, hcs] at h ⊢
  refine takes_optional (isSpace_of_isDigit hc) ?_ h
  rintro rfl
  cases hc

end Json

theorem Time.Instant.takes (t : Time.Instant) (depth : Nat) :
    Takes (Time.Instant.decoder.read depth) (stringChars t.text) t := by
  unfold Time.Instant.decoder Decoder.spelled
  refine takes_scalar (spells_string t.text) ?_ depth
  simp only [Time.Instant.parse_text]
  rfl

theorem Keyring.Secret.takes (secret : Keyring.Secret) (depth : Nat) :
    Takes (Keyring.Secret.decoder.read depth) (stringChars secret.toHex) secret := by
  refine takes_refine (takes_string secret.toHex depth) ?_
  rw [Keyring.Secret.read_toHex]
  rfl

/-- A member with the text of its value inside `level` containers. -/
def Json.memberText (level : Nat) (m : String × Json) : String × List Char :=
  (m.1, m.2.prettyChars level)

namespace Liveness

/-- The fields of a report. -/
abbrev Report.fields : List Field :=
  [.required "connected" .bool, .optional "status" .uint16, .optional "error" .string,
   .required "checkedAt" Time.Instant.decoder]

theorem Report.fill (r : Report) (depth level : Nat) :
    Fill Report.fields depth (none, none, none, none, ())
      ((statusMembers r.connected r.status r.error ++ [("checkedAt", r.checkedAt.toJson)]).map
        (memberText level))
      (some r.connected, r.status.map some, r.error.map some, some r.checkedAt, ()) := by
  obtain ⟨connected, status, error, checkedAt⟩ := r
  have hconnected : Slots.Accepts Report.fields depth (none, none, none, none, ())
      "connected" (boolChars connected) (some connected, none, none, none, ()) :=
    .here rfl (takes_bool connected depth) _
  have hstatus : Fill Report.fields depth (some connected, none, none, none, ())
      ((optionalMember "status" statusJson status).map (memberText level))
      (some connected, status.map some, none, none, ()) := by
    -- A member that is not written leaves its slot empty.
    cases status with
    | none => exact .nil _
    | some status =>
        have haccepts : Slots.Accepts Report.fields depth
            (some connected, none, none, none, ()) "status"
            (numberChars (.integer status.toNat))
            (some connected, some (some status), none, none, ()) :=
          .there (by decide) (.here rfl (takes_optional_natural (takes_uint16 status depth)) _) _
        exact .cons haccepts (.nil _)
  have herror : Fill Report.fields depth (some connected, status.map some, none, none, ())
      ((optionalMember "error" .string error).map (memberText level))
      (some connected, status.map some, error.map some, none, ()) := by
    cases error with
    | none => exact .nil _
    | some error =>
        have haccepts : Slots.Accepts Report.fields depth
            (some connected, status.map some, none, none, ()) "error" (stringChars error)
            (some connected, status.map some, some (some error), none, ()) :=
          .there (by decide) (.there (by decide)
            (.here rfl (takes_optional (by decide) (by decide) (takes_string error depth)) _) _) _
        exact .cons haccepts (.nil _)
  have hcheckedAt : Slots.Accepts Report.fields depth
      (some connected, status.map some, error.map some, none, ()) "checkedAt"
      (stringChars checkedAt.text)
      (some connected, status.map some, error.map some, some checkedAt, ()) :=
    .there (by decide) (.there (by decide) (.there (by decide)
      (.here rfl (checkedAt.takes depth) _) _) _) _
  rw [statusMembers, List.map_append, List.map_append, List.map_cons]
  exact Fill.append (Fill.append (.cons hconnected hstatus) herror) (.cons hcheckedAt (.nil _))

theorem Report.takes (r : Report) (depth level : Nat) :
    Takes (Report.decoder.read (depth + 1)) (r.toJson.prettyChars level) r := by
  have hrow : @Slots.complete Report.fields
      (some r.connected, r.status.map some, r.error.map some, some r.checkedAt, ()) =
      .ok (r.connected, r.status, r.error, r.checkedAt, ()) := by
    cases r.status <;> cases r.error <;> rfl
  rw [Report.toJson, prettyChars_object]
  exact takes_record (r.fill depth (level + 1)) hrow rfl

/-- The fields of an overview. -/
abbrev Overview.fields : List Field :=
  [.required "node" Report.decoder, .required "simulator" Report.decoder]

theorem Overview.takes (o : Overview) (depth level : Nat) :
    Takes (Overview.decoder.read (depth + 2)) (o.toJson.prettyChars level) o := by
  have hnode : Slots.Accepts Overview.fields (depth + 1) (none, none, ()) "node"
      (o.node.toJson.prettyChars (level + 1)) (some o.node, none, ()) :=
    .here rfl (o.node.takes depth _) _
  have hsimulator : Slots.Accepts Overview.fields (depth + 1) (some o.node, none, ())
      "simulator" (o.simulator.toJson.prettyChars (level + 1)) (some o.node, some o.simulator, ()) :=
    .there (by decide) (.here rfl (o.simulator.takes depth _) _) _
  rw [Overview.toJson, prettyChars_object]
  exact takes_record (.cons hnode (.cons hsimulator (.nil _))) rfl rfl

end Liveness

/-! ## Wallets -/

namespace Wallet

/-- The members in front of the balance fill their slots. -/
theorem fill_owner (w : Wallet) (depth : Nat) :
    Fill fields depth (none, none, none, none, none, ())
      [("address", stringChars w.address), ("publicKey", stringChars w.identity),
        ("privateKey", stringChars w.secret.toHex)]
      (some w.address, some w.identity, some w.secret, none, none, ()) := by
  have haddress : Slots.Accepts fields depth (none, none, none, none, none, ()) "address"
      (stringChars w.address) (some w.address, none, none, none, none, ()) :=
    .here rfl (takes_string w.address depth) _
  have hidentity : Slots.Accepts fields depth (some w.address, none, none, none, none, ())
      "publicKey" (stringChars w.identity) (some w.address, some w.identity, none, none, none, ()) :=
    .there (by decide) (.here rfl (takes_string w.identity depth) _) _
  have hsecret : Slots.Accepts fields depth
      (some w.address, some w.identity, none, none, none, ()) "privateKey"
      (stringChars w.secret.toHex)
      (some w.address, some w.identity, some w.secret, none, none, ()) :=
    .there (by decide) (.there (by decide) (.here rfl (w.secret.takes depth) _) _) _
  exact .cons haddress (.cons hidentity (.cons hsecret (.nil _)))

/-- The wallet is read back with the balance that is read from the text of its own. -/
theorem takes {w : Wallet} {y : Binary64}
    (hbalance : Spells (numberChars (.float w.balance)) (.number (.float y))) (depth level : Nat) :
    Takes (Wallet.decoder.read (depth + 1)) (w.toJson.prettyChars level)
      { w with balance := y } := by
  have hfloat := takes_float hbalance depth
  have haccepts : Slots.Accepts fields depth
      (some w.address, some w.identity, some w.secret, none, none, ()) "balance"
      (numberChars (.float w.balance))
      (some w.address, some w.identity, some w.secret, some y, none, ()) :=
    .there (by decide) (.there (by decide) (.there (by decide) (.here rfl hfloat _) _) _) _
  have hcreatedAt : Slots.Accepts fields depth
      (some w.address, some w.identity, some w.secret, some y, none, ()) "createdAt"
      (stringChars w.createdAt.text)
      (some w.address, some w.identity, some w.secret, some y, some w.createdAt, ()) :=
    .there (by decide) (.there (by decide) (.there (by decide) (.there (by decide)
      (.here rfl (w.createdAt.takes depth) _) _) _) _) _
  have hfill := (w.fill_owner depth).append (.cons haccepts (.cons hcreatedAt (.nil _)))
  rw [toJson, prettyChars_object]
  exact takes_record hfill rfl rfl

/-- A wallet is refused if its balance is not finite. -/
theorem refuses {w : Wallet} (hbalance : w.balance.isFinite = false) (depth level : Nat) :
    Refuses (Wallet.decoder.read (depth + 1)) (w.toJson.prettyChars level) := by
  have hfloat := refuses_float hbalance depth
  have hrejects : Slots.Rejects fields depth
      (some w.address, some w.identity, some w.secret, none, none, ()) "balance"
      (numberChars (.float w.balance)) :=
    .there (by decide) (.there (by decide) (.there (by decide) (.here rfl hfloat _) _) _) _
  rw [toJson, prettyChars_object]
  exact refuses_record (w.fill_owner depth) hrejects
    [("createdAt", stringChars w.createdAt.text)] rfl

end Wallet

/-! ## Images -/

namespace Store.Image

/-- The fields of an image. -/
abbrev fields : List Field :=
  [.withDefault "version" .uint64 0, .optional "wallet" Wallet.decoder,
   .optional "health" Liveness.Overview.decoder]

/-- The image with another balance in its wallet, if it has one. -/
def withBalance (i : Image) (balance : Binary64) : Image :=
  { i with wallet := i.wallet.map ({ · with balance }) }

theorem accepts_version (i : Image) (depth : Nat) :
    Slots.Accepts fields depth (none, none, none, ()) "version"
      (numberChars (.integer i.version.toNat)) (some i.version, none, none, ()) :=
  .here rfl (takes_uint64 i.version depth) _

/-- The image is read back with the balance that is read from the text of its own. -/
theorem takes {i : Image} {y : Binary64} (hbalance : ∀ w ∈ i.wallet,
      Spells (numberChars (.float w.balance)) (.number (.float y))) (depth level : Nat) :
    Takes (Image.decoder.read (depth + 3)) (i.toJson.prettyChars level) (i.withBalance y) := by
  obtain ⟨version, wallet, health⟩ := i
  have hwallet : Takes (Wallet.decoder.optional.read (depth + 2))
      ((ofOption Wallet.toJson wallet).prettyChars (level + 1))
      (wallet.map ({ · with balance := y })) := by
    cases wallet with
    | none => exact takes_optional_null _ _
    | some w => exact takes_optional_object (Wallet.takes (hbalance w rfl) (depth + 1) (level + 1))
  have hhealth : Takes (Liveness.Overview.decoder.optional.read (depth + 2))
      ((ofOption Liveness.Overview.toJson health).prettyChars (level + 1)) health := by
    cases health with
    | none => exact takes_optional_null _ _
    | some overview => exact takes_optional_object (overview.takes depth (level + 1))
  have hacceptsWallet : Slots.Accepts fields (depth + 2) (some version, none, none, ())
      "wallet" ((ofOption Wallet.toJson wallet).prettyChars (level + 1))
      (some version, some (wallet.map ({ · with balance := y })), none, ()) :=
    .there (by decide) (.here rfl hwallet _) _
  have hacceptsHealth : Slots.Accepts fields (depth + 2)
      (some version, some (wallet.map ({ · with balance := y })), none, ()) "health"
      ((ofOption Liveness.Overview.toJson health).prettyChars (level + 1))
      (some version, some (wallet.map ({ · with balance := y })), some health, ()) :=
    .there (by decide) (.there (by decide) (.here rfl hhealth _) _) _
  rw [toJson, prettyChars_object]
  exact takes_record
    (.cons (accepts_version _ _) (.cons hacceptsWallet (.cons hacceptsHealth (.nil _)))) rfl rfl

/-- An image is refused if the balance in its wallet is not finite. -/
theorem refuses {i : Image} {w : Wallet} (hw : i.wallet = some w)
    (hbalance : w.balance.isFinite = false) (depth level : Nat) :
    Refuses (Image.decoder.read (depth + 3)) (i.toJson.prettyChars level) := by
  have hwallet : Refuses (Wallet.decoder.optional.read (depth + 2))
      ((ofOption Wallet.toJson i.wallet).prettyChars (level + 1)) := by
    rw [hw]
    exact refuses_optional_object (Wallet.refuses hbalance (depth + 1) (level + 1))
  have hrejects : Slots.Rejects fields (depth + 2) (some i.version, none, none, ())
      "wallet" ((ofOption Wallet.toJson i.wallet).prettyChars (level + 1)) :=
    .there (by decide) (.here rfl hwallet _) _
  rw [toJson, prettyChars_object]
  exact refuses_record (.cons (i.accepts_version _) (.nil _)) hrejects
    [("health", (ofOption Liveness.Overview.toJson i.health).prettyChars (level + 1))] rfl

/-! ## The text of an image -/

theorem ofText_text (i : Image) :
    Symbol.ofText i.text = (i.toJson.prettyChars 0).map .char := by
  rw [Symbol.ofText, text, pretty, String.toList_ofList]

theorem parse_of_spells {i : Image} {y : Binary64} (hbalance : ∀ w ∈ i.wallet,
      Spells (numberChars (.float w.balance)) (.number (.float y))) :
    Image.parse i.text = .ok (i.withBalance y) := by
  rw [Image.parse, ofText_text, decode_of_takes (takes hbalance 124 0)]
  rfl

/-- The image with the balance that is read from the text of its own. -/
def reread (i : Image) : Image :=
  { i with wallet := i.wallet.map fun w => { w with balance := w.balance.reread } }

/-- An image with a finite balance, or none, is read back but for its balance, which is reread. -/
theorem parse_text_reread {i : Image} (hbalance : ∀ w ∈ i.wallet, w.balance.isFinite = true) :
    Image.parse i.text = .ok i.reread := by
  obtain ⟨version, wallet, health⟩ := i
  cases wallet with
  | none => exact parse_of_spells (y := .zero false) (by rintro w ⟨⟩)
  | some w =>
      refine parse_of_spells (y := w.balance.reread) ?_
      rintro w ⟨⟩
      exact (spells_reread (hbalance _ rfl)).2

/-- An image with a finite balance, or none, is read back but for its balance. -/
theorem parse_text {i : Image} (hbalance : ∀ w ∈ i.wallet, w.balance.isFinite = true) :
    ∃ y, y.isFinite = true ∧ Image.parse i.text = .ok (i.withBalance y) := by
  rw [parse_text_reread hbalance]
  obtain ⟨version, wallet, health⟩ := i
  cases wallet with
  | none => exact ⟨.zero false, Binary64.zero_isFinite false, rfl⟩
  | some w => exact ⟨w.balance.reread, (spells_reread (hbalance w rfl)).1, rfl⟩

/-- An image with a balance that is not finite cannot be read from its text. -/
theorem parse_text_of_not_finite {i : Image} {w : Wallet} (hw : i.wallet = some w)
    (hbalance : w.balance.isFinite = false) : ∃ fault, Image.parse i.text = .error fault := by
  obtain ⟨problem, hproblem⟩ := decode_of_refuses (refuses hw hbalance 124 0)
  refine ⟨.unreadable problem, ?_⟩
  rw [Image.parse, ofText_text, hproblem]
  rfl

end Store.Image

theorem Wallet.gives_finite (depth : Nat) :
    Gives (Wallet.decoder.read depth) fun w => w.balance.isFinite = true := by
  intro text w rest h
  obtain ⟨⟨address, identity, secret, balance, createdAt, _⟩, ⟨-, -, -, hbalance, -⟩, rfl⟩ :=
    gives_record _ _ depth text w rest h
  rcases hbalance with ⟨depth, text, rest, hread⟩ | habsent | habsent
  · exact gives_float depth text balance rest hread
  · cases habsent
  · cases habsent

theorem Store.Image.gives_finite (depth : Nat) :
    Gives (Image.decoder.read depth) fun i => ∀ w ∈ i.wallet, w.balance.isFinite = true := by
  intro text i rest h
  obtain ⟨⟨version, wallet, health, _⟩, ⟨-, hwallet, -⟩, rfl⟩ :=
    gives_record _ _ depth text i rest h
  rcases hwallet with ⟨depth, text, rest, hread⟩ | habsent | habsent
  · exact gives_optional (Wallet.gives_finite depth) text wallet rest hread
  · cases habsent
    rintro w ⟨⟩
  · cases habsent
    rintro w ⟨⟩

/-- Every balance that is read is finite. -/
theorem Store.Image.isFinite_of_parse {text : String} {i : Image} (h : Image.parse text = .ok i) :
    ∀ w ∈ i.wallet, w.balance.isFinite = true := by
  rw [Image.parse] at h
  cases hdecode : Image.decoder.decode (Symbol.ofText text) with
  | error problem =>
      rw [hdecode] at h
      cases h
  | ok image =>
      rw [hdecode] at h
      cases h
      exact of_decode gives_finite hdecode

/-- The text of a number is read as the same number. -/
def Binary64.ReadsBack (x : Binary64) : Prop :=
  Decoder.float.decode (Symbol.ofText (Json.float x).compact) = .ok x

/-- A number reads back if it is finite and what it is reread as. -/
theorem Binary64.readsBack_iff {x : Binary64} :
    x.ReadsBack ↔ x.isFinite = true ∧ x.reread = x := by
  have htext : Symbol.ofText (Json.float x).compact = (numberChars (.float x)).map .char := by
    rw [Symbol.ofText, compact, String.toList_ofList]
    rfl
  rw [ReadsBack, htext]
  cases hx : x.isFinite with
  | false =>
      obtain ⟨problem, hproblem⟩ := decode_of_refuses (refuses_float hx _)
      rw [hproblem]
      exact ⟨by rintro ⟨⟩, fun h => Bool.noConfusion h.1⟩
  | true =>
      rw [decode_of_takes (takes_float (spells_reread hx).2 _)]
      exact ⟨fun h => ⟨rfl, Except.ok.inj h⟩, fun h => congrArg Except.ok h.2⟩

namespace Store.Image

/-- An image is read back as it is exactly if its balance reads back. -/
theorem reread_eq_iff {i : Image} (hfinite : ∀ w ∈ i.wallet, w.balance.isFinite = true) :
    i.reread = i ↔ ∀ w ∈ i.wallet, w.balance.ReadsBack := by
  obtain ⟨version, wallet, health⟩ := i
  cases wallet with
  | none => simp [reread]
  | some w =>
      have hw : w.balance.isFinite = true := hfinite w rfl
      constructor
      · rintro h w' ⟨⟩
        have hwallet : { w with balance := w.balance.reread } = w :=
          Option.some.inj (congrArg Image.wallet h)
        exact Binary64.readsBack_iff.mpr ⟨hw, congrArg Wallet.balance hwallet⟩
      · intro h
        simp [reread, (Binary64.readsBack_iff.mp (h w rfl)).2]

/-- An image whose balance reads back is read back as it is. -/
theorem parse_text_of_readsBack {i : Image} (hbalance : ∀ w ∈ i.wallet, w.balance.ReadsBack) :
    Image.parse i.text = .ok i := by
  have hfinite : ∀ w ∈ i.wallet, w.balance.isFinite = true := by
    intro w hw
    exact (Binary64.readsBack_iff.mp (hbalance w hw)).1
  rw [parse_text_reread hfinite, (reread_eq_iff hfinite).mpr hbalance]

end Store.Image

end WalletEngine
