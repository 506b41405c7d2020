import WalletEngine.Proofs.Json.Members
import WalletEngine.Transfer.History

/-! # What an entry of a history keeps

The ledger may send an entry with members that are not known. They are kept as they came, at any depth,
and written again beside the known ones, from which the same entry is read back.
-/

namespace WalletEngine

open Json Steps

namespace Json.Decoder

variable {α : Type} {d : Decoder α} {content : Content}

/-- What an optional value is written as is read back. -/
theorem optional_ofTree_ofOption {encode : α → Json}
    (h : ∀ a, encode a ≠ .null ∧ d.ofTree content (encode a) = .ok a) (a? : Option α) :
    d.optional.ofTree content (.ofOption encode a?) = .ok a? := by
  cases a? with
  | none => rfl
  | some a => exact optional_ofTree_iff.mpr (.inr ⟨(h a).1, a, (h a).2, rfl⟩)

end Json.Decoder

namespace Transfer.HistoryEntry

open Decoder

/-- The names of the known members. -/
def knownNames : List String := ["from", "to", "amount", "timestamp", "hash"]

/-- Under a name there is nothing, or `null`, or what `p` allows. -/
def MayBe (v : Json) (name : String) (p : Json → Prop) : Prop :=
  ∀ j, v.member? name = some j → j = .null ∨ p j

/-- The known members of a value, as far as there are any, are of their types. -/
structure Fits (v : Json) : Prop where
  sender : MayBe v "from" fun j => ∃ s, j = .string s
  recipient : MayBe v "to" fun j => ∃ s, j = .string s
  amount : MayBe v "amount" fun j => ∃ n, j = .number n
  timestamp : MayBe v "timestamp" fun j => ∃ n : Int, j = .integer n ∧
    Int64.minValue.toInt ≤ n ∧ n ≤ Int64.maxValue.toInt
  hash : MayBe v "hash" fun j => ∃ s, j = .string s

/-! ## Reading -/

section Reading
variable {content : Content} {ms : List (String × Json)}

theorem unknown_eq (ms : List (String × Json)) :
    unknown fields ms = ms.filter fun m => m.1 ∉ knownNames := rfl

/-- An entry is what is found under the five names, with the members under all others. -/
theorem ofTree_object_iff (h : (ms.map Prod.fst).Nodup) {e : HistoryEntry} :
    decoder.ofTree content (.object ms) = .ok e ↔
      string.optional.ofTree content ((ms.lookup "from").getD .null) = .ok e.sender ∧
      string.optional.ofTree content ((ms.lookup "to").getD .null) = .ok e.recipient ∧
      float.optional.ofTree content ((ms.lookup "amount").getD .null) = .ok e.amount ∧
      int64.optional.ofTree content ((ms.lookup "timestamp").getD .null) = .ok e.timestamp ∧
      string.optional.ofTree content ((ms.lookup "hash").getD .null) = .ok e.hash ∧
      sortMembers (unknown fields ms) = e.others := by
  refine (openRecord_iff_told (by decide)).trans ?_
  constructor
  · rintro ⟨⟨sender, recipient, amount, timestamp, hash, ⟨⟩⟩,
      ⟨hsender, hrecipient, hamount, htimestamp, hhash, -⟩, rfl⟩
    exact ⟨(optional_tells_lookup h).mp hsender, (optional_tells_lookup h).mp hrecipient,
      (optional_tells_lookup h).mp hamount, (optional_tells_lookup h).mp htimestamp,
      (optional_tells_lookup h).mp hhash, rfl⟩
  · obtain ⟨sender, recipient, amount, timestamp, hash, others⟩ := e
    rintro ⟨hsender, hrecipient, hamount, htimestamp, hhash, hothers⟩
    refine ⟨(sender, recipient, amount, timestamp, hash, ()), ?_, ?_⟩
    · exact ⟨(optional_tells_lookup h).mpr hsender, (optional_tells_lookup h).mpr hrecipient,
        (optional_tells_lookup h).mpr hamount, (optional_tells_lookup h).mpr htimestamp,
        (optional_tells_lookup h).mpr hhash, trivial⟩
    · exact congrArg (HistoryEntry.mk sender recipient amount timestamp hash) hothers

theorem exists_optional_iff {α : Type} {d : Decoder α} {name : String} {p : Json → Prop}
    (hp : ∀ j, (∃ a, d.ofTree content j = .ok a) ↔ p j) :
    (∃ a?, d.optional.ofTree content ((ms.lookup name).getD .null) = .ok a?) ↔
      MayBe (.object ms) name p := by
  rw [MayBe, member?]
  simp only [optional_ofTree_iff]
  cases ms.lookup name with
  | none => exact iff_of_true ⟨none, .inl ⟨rfl, rfl⟩⟩ fun _ h => nomatch h
  | some j =>
      constructor
      · rintro ⟨a?, ⟨hnull, -⟩ | ⟨-, a, ha, -⟩⟩ _ ⟨⟩
        · exact .inl hnull
        · exact .inr ((hp j).mp ⟨a, ha⟩)
      · intro h
        by_cases hnull : j = .null
        · exact ⟨none, .inl ⟨hnull, rfl⟩⟩
        · obtain ⟨a, ha⟩ := (hp j).mpr ((h j rfl).resolve_left hnull)
          exact ⟨some a, .inr ⟨hnull, a, ha, rfl⟩⟩

theorem exists_int64_iff (j : Json) : (∃ t, int64.ofTree content j = .ok t) ↔
    ∃ n : Int, j = .integer n ∧ Int64.minValue.toInt ≤ n ∧ n ≤ Int64.maxValue.toInt := by
  simp only [int64_ofTree_iff]
  constructor
  · rintro ⟨t, rfl⟩
    exact ⟨_, rfl, t.minValue_le_toInt, t.toInt_le⟩
  · rintro ⟨n, rfl, hlow, hhigh⟩
    exact ⟨.ofInt n, by rw [Int64.toInt_ofInt_of_le hlow (Int.lt_add_one_of_le hhigh)]⟩

/-- An entry can be read from members of different names exactly if they fit. -/
theorem exists_ofTree_iff (h : (ms.map Prod.fst).Nodup) :
    (∃ e, decoder.ofTree content (.object ms) = .ok e) ↔ Fits (.object ms) := by
  have htext : ∀ j, (∃ s, string.ofTree content j = .ok s) ↔ ∃ s, j = .string s := fun j => by
    simp only [string_ofTree_iff]
  have hnumber : ∀ j, (∃ x, float.ofTree content j = .ok x) ↔ ∃ n, j = .number n := fun j =>
    exists_float_ofTree_iff
  simp only [ofTree_object_iff h]
  constructor
  · rintro ⟨e, hsender, hrecipient, hamount, htimestamp, hhash, -⟩
    exact ⟨(exists_optional_iff htext).mp ⟨_, hsender⟩,
      (exists_optional_iff htext).mp ⟨_, hrecipient⟩,
      (exists_optional_iff hnumber).mp ⟨_, hamount⟩,
      (exists_optional_iff exists_int64_iff).mp ⟨_, htimestamp⟩,
      (exists_optional_iff htext).mp ⟨_, hhash⟩⟩
  · intro hfits
    obtain ⟨sender, hsender⟩ := (exists_optional_iff htext).mpr hfits.sender
    obtain ⟨recipient, hrecipient⟩ := (exists_optional_iff htext).mpr hfits.recipient
    obtain ⟨amount, hamount⟩ := (exists_optional_iff hnumber).mpr hfits.amount
    obtain ⟨timestamp, htimestamp⟩ := (exists_optional_iff exists_int64_iff).mpr hfits.timestamp
    obtain ⟨hash, hhash⟩ := (exists_optional_iff htext).mpr hfits.hash
    exact ⟨⟨sender, recipient, amount, timestamp, hash, _⟩, hsender, hrecipient, hamount, htimestamp,
      hhash, rfl⟩

end Reading

/-! ## Writing -/

/-- The known members, as they are written. -/
def known (e : HistoryEntry) : List (String × Json) :=
  [("from", .ofOption .string e.sender), ("to", .ofOption .string e.recipient),
    ("amount", .ofOption .float e.amount),
    ("timestamp", .ofOption (fun t => .integer t.toInt) e.timestamp),
    ("hash", .ofOption .string e.hash)]

/-- The members that are kept are in order and sorted, and none has a known name. -/
structure Tidy (e : HistoryEntry) : Prop where
  inOrder : InOrder e.others
  unknown : ∀ m ∈ e.others, m.1 ∉ knownNames
  sorted : ∀ m ∈ e.others, m.2.IsSorted

variable {e : HistoryEntry}

theorem isSorted_known : ∀ m ∈ e.known, m.2.IsSorted := by
  intro m hm
  simp only [known, List.mem_cons, List.not_mem_nil, or_false] at hm
  rcases hm with rfl | rfl | rfl | rfl | rfl
  · cases e.sender <;> rfl
  · cases e.recipient <;> rfl
  · cases e.amount <;> rfl
  · cases e.timestamp <;> rfl
  · cases e.hash <;> rfl

namespace Tidy

theorem lookup_of_known (h : e.Tidy) {name : String} (hname : name ∈ knownNames) :
    e.others.lookup name = none := by
  refine lookup_of_notMem fun hmem => ?_
  obtain ⟨m, hm, rfl⟩ := List.mem_map.mp hmem
  exact h.unknown m hm hname

theorem nodup (h : e.Tidy) : ((e.known ++ e.others).map Prod.fst).Nodup := by
  rw [List.map_append, List.nodup_append]
  have hknown : (e.known.map Prod.fst).Nodup := show knownNames.Nodup by decide
  refine ⟨hknown, h.inOrder.nodup, ?_⟩
  rintro name hname other hother rfl
  obtain ⟨m, hm, rfl⟩ := List.mem_map.mp hother
  exact h.unknown m hm hname

/-- An entry is written with its members in order. -/
theorem sorted_toJson (h : e.Tidy) :
    e.toJson.sorted = .object (sortMembers (e.known ++ e.others)) := by
  change Json.object (sortMembers (sortedMembers (e.known ++ e.others))) = _
  rw [sortedMembers_of_isSorted (List.forall_mem_append.mpr ⟨isSorted_known, h.sorted⟩)]

theorem lookup_written (h : e.Tidy) (name : String) :
    (sortMembers (e.known ++ e.others)).lookup name =
      (e.known.lookup name).or (e.others.lookup name) := by
  rw [lookup_sortMembers h.nodup, List.lookup_append]

theorem lookup_written_of_unknown (h : e.Tidy) {name : String} (hname : name ∉ knownNames) :
    (sortMembers (e.known ++ e.others)).lookup name = e.others.lookup name := by
  have hknown : e.known.lookup name = none := lookup_of_notMem hname
  rw [h.lookup_written, hknown, Option.none_or]

theorem unknown_written (h : e.Tidy) :
    Json.unknown fields (sortMembers (e.known ++ e.others)) = e.others := by
  refine InOrder.ext ((inOrder_sortMembers _).filter _) h.inOrder fun name => ?_
  rw [unknown_eq, lookup_filter fun name => name ∉ knownNames]
  by_cases hname : name ∈ knownNames
  · rw [if_neg (by simpa using hname), h.lookup_of_known hname]
  · rw [if_pos (by simpa using hname), h.lookup_written_of_unknown hname]

/-- A tidy entry is read back from what it is written as. -/
theorem ofTree_toJson (h : e.Tidy) (content : Content) :
    decoder.ofTree content e.toJson.sorted = .ok e := by
  have hstring : ∀ s, Json.string s ≠ .null ∧ string.ofTree content (.string s) = .ok s :=
    fun s => ⟨nofun, rfl⟩
  have hfloat : ∀ x, Json.float x ≠ .null ∧ float.ofTree content (.float x) = .ok x :=
    fun x => ⟨nofun, rfl⟩
  have hint : ∀ t : Int64, Json.integer t.toInt ≠ .null ∧
      int64.ofTree content (.integer t.toInt) = .ok t := fun t => ⟨nofun, ofTree_int64 content t⟩
  rw [h.sorted_toJson, ofTree_object_iff (inOrder_sortMembers _).nodup]
  simp only [h.lookup_written]
  refine ⟨optional_ofTree_ofOption hstring _, optional_ofTree_ofOption hstring _,
    optional_ofTree_ofOption hfloat _, optional_ofTree_ofOption hint _,
    optional_ofTree_ofOption hstring _, ?_⟩
  rw [h.unknown_written, h.inOrder.sortMembers]

end Tidy

/-! ## What is kept -/

section Kept
variable {ms : List (String × Json)}

/-- What is kept of a sorted value is its members under other names. -/
theorem others_of_ofTree {content : Content} (h : (Json.object ms).IsSorted)
    (he : decoder.ofTree content (.object ms) = .ok e) :
    e.others = ms.filter fun m => m.1 ∉ knownNames := by
  have horder := (isSorted_object_iff.mp h).1
  obtain ⟨-, -, -, -, -, hothers⟩ := (ofTree_object_iff horder.nodup).mp he
  have hfilter : InOrder (unknown fields ms) := horder.filter _
  rw [← hothers, hfilter.sortMembers, unknown_eq]

theorem tidy_of_ofTree {content : Content} (h : (Json.object ms).IsSorted)
    (he : decoder.ofTree content (.object ms) = .ok e) : e.Tidy := by
  obtain ⟨horder, hsorted⟩ := isSorted_object_iff.mp h
  have hothers := others_of_ofTree h he
  refine ⟨hothers ▸ horder.filter _, fun m hm => ?_, fun m hm => ?_⟩
  · rw [hothers, List.mem_filter] at hm
    simpa using hm.2
  · rw [hothers, List.mem_filter] at hm
    exact hsorted m hm.1

/-- An entry can be read from an object exactly if its known members fit. It keeps all others as they
are, is written with each of them under its name, and is read back from what it is written as. -/
theorem keeps_what_was_sent (h : (Json.object ms).IsSorted) :
    ((∃ e, decoder.decodeTree (.object ms) = .ok e) ↔ Fits (.object ms)) ∧
    ∀ e, decoder.decodeTree (.object ms) = .ok e →
      (e.others = ms.filter fun m => m.1 ∉ knownNames) ∧
      (∀ name, name ∉ knownNames →
        e.toJson.sorted.member? name = (Json.object ms).member? name) ∧
      decoder.decodeTree e.toJson.sorted = .ok e := by
  simp only [decodeTree_eq_ok_iff]
  refine ⟨exists_ofTree_iff (isSorted_object_iff.mp h).1.nodup, fun e he => ?_⟩
  have htidy := tidy_of_ofTree h he
  have hothers := others_of_ofTree h he
  refine ⟨hothers, fun name hname => ?_, htidy.ofTree_toJson .value⟩
  rw [htidy.sorted_toJson, member?, member?, htidy.lookup_written_of_unknown hname, hothers,
    lookup_filter fun name => name ∉ knownNames, if_pos (by simpa using hname)]

end Kept

/-- What the ledger may send: a whole amount, a hash that is `null`, and a member that is not known, in
which a known name and a list stand deeper down. -/
def sampleMembers : List (String × Json) :=
  [("amount", .integer 5),
    ("block", .object [("from", .integer 7), ("tags", .array [.null, .string "a"])]),
    ("hash", .null), ("to", .string "bb")]

theorem isSorted_sample : (Json.object sampleMembers).IsSorted := by
  simp +decide [IsSorted, sampleMembers, sorted, sortedMembers, sortedItems, sortMembers,
    Json.insert, Json.integer]

/-- The sample is read, and the member that is not known is written again as it came. -/
theorem keeps_what_was_sent_sample :
    (Json.object sampleMembers).IsSorted ∧
    ∃ e, decoder.decodeTree (.object sampleMembers) = .ok e ∧
      e.others = sampleMembers.filter (fun m => m.1 ∉ knownNames) ∧
      e.toJson.sorted.member? "block" = (Json.object sampleMembers).member? "block" ∧
      decoder.decodeTree e.toJson.sorted = .ok e := by
  obtain ⟨hreads, hkeeps⟩ := keeps_what_was_sent isSorted_sample
  have hfits : Fits (.object sampleMembers) := by
    constructor
    · rintro j ⟨⟩
    · rintro j ⟨⟩
      exact .inr ⟨_, rfl⟩
    · rintro j ⟨⟩
      exact .inr ⟨_, rfl⟩
    · rintro j ⟨⟩
    · rintro j ⟨⟩
      exact .inl rfl
  obtain ⟨e, he⟩ := hreads.mpr hfits
  obtain ⟨hothers, hwritten, hback⟩ := hkeeps e he
  exact ⟨isSorted_sample, e, he, hothers, hwritten "block" (by decide), hback⟩

end Transfer.HistoryEntry
end WalletEngine
