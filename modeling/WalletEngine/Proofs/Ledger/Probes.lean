import WalletEngine.Proofs.Crew.Steps
import WalletEngine.Proofs.Json.Members
import WalletEngine.Proofs.Ledger.Exchanges

/-! # Probes and their verdicts

A probe never fails: it ends with a report, whether a response came or not. The service counts as
connected if a response came whose status is one of success and whose body, if it can be read as the
answer to a probe, does not say otherwise. A body that cannot be read so is advice that is not
taken.
-/

namespace WalletEngine

open Liveness (Monitor Report Service)

namespace Ledger

/-- The body of a response is an answer to a probe, and says that the service is not well. -/
def SaysUnwell (r : Http.Response) : Prop :=
  ∃ body, r.decode? HealthBody.decoder = some body ∧ body.ok = some false

/-- A value that an optional text may have. -/
def MayBeText (j : Json) : Prop := j = .null ∨ ∃ t, j = .string t

/-- What is sent says that the service is not well: an object in which `ok` is false, or a list that
starts with false. A message that comes with it is a text or `null`, and comes once. -/
def TellsUnwell : Json → Prop
  | .object ms => Json.valuesOf "ok" ms = [.bool false] ∧
      (Json.valuesOf "message" ms = [] ∨ ∃ m, Json.valuesOf "message" ms = [m] ∧ MayBeText m)
  | .array items => items = [.bool false] ∨ ∃ m, items = [.bool false, m] ∧ MayBeText m
  | _ => False

section Bodies
open Json Decoder Steps

variable {content : Content} {j : Json}

theorem optional_bool_iff {b : Bool} :
    bool.optional.ofTree content j = .ok (some b) ↔ j = .bool b := by
  rw [optional_ofTree_iff]
  constructor
  · rintro (⟨-, ⟨⟩⟩ | ⟨-, _, hb, ⟨⟩⟩)
    exact bool_ofTree_iff.mp hb
  · rintro rfl
    exact .inr ⟨by simp, b, rfl, rfl⟩

theorem mayBeText_iff : (∃ message, string.optional.ofTree content j = .ok message) ↔
    MayBeText j := by
  simp only [optional_ofTree_iff]
  constructor
  · rintro ⟨message, ⟨hnull, -⟩ | ⟨-, t, ht, -⟩⟩
    · exact .inl hnull
    · exact .inr ⟨t, string_ofTree_iff.mp ht⟩
  · rintro (rfl | ⟨t, rfl⟩)
    · exact ⟨none, .inl ⟨rfl, rfl⟩⟩
    · exact ⟨some t, .inr ⟨by simp, t, rfl, rfl⟩⟩

theorem healthBody_agrees : HealthBody.decoder.Agrees := by
  refine agrees_record (List.forall_mem_cons.mpr ⟨agrees_bool.optional, ?_⟩) _ _
  exact List.forall_mem_singleton.mpr agrees_string.optional

/-- An object says that the service is not well by the values under the two names. -/
theorem unwell_object_iff {ms : List (String × Json)} :
    (∃ body, HealthBody.decoder.ofTree content (.object ms) = .ok body ∧ body.ok = some false) ↔
      TellsUnwell (.object ms) := by
  constructor
  · rintro ⟨body, hbody, hok⟩
    obtain ⟨⟨ok, message, ⟨⟩⟩, htake, rfl⟩ := map_eq_ok_iff.mp hbody
    cases hok
    obtain ⟨hok, hmessage, -⟩ := (takeRecord_iff_told (by decide)).mp htake
    constructor
    · obtain ⟨-, ⟨⟩⟩ | ⟨j, hj, hfalse⟩ := optional_tells_iff.mp hok
      rw [← optional_bool_iff.mp hfalse]
      exact hj
    · obtain ⟨hnone, -⟩ | ⟨m, hm, htext⟩ := optional_tells_iff.mp hmessage
      · exact .inl hnone
      · exact .inr ⟨m, hm, mayBeText_iff.mp ⟨message, htext⟩⟩
  · rintro ⟨hok, hmessage⟩
    have hfalse : (Field.optional "ok" bool).Tells content (valuesOf "ok" ms) (some false) :=
      optional_tells_iff.mpr (.inr ⟨_, hok, rfl⟩)
    have htext : ∃ message, (Field.optional "message" string).Tells content
        (valuesOf "message" ms) message := by
      rcases hmessage with hnone | ⟨m, hm, htext⟩
      · exact ⟨none, optional_tells_iff.mpr (.inl ⟨hnone, rfl⟩)⟩
      · obtain ⟨message, hmessage⟩ := mayBeText_iff.mpr htext
        exact ⟨message, optional_tells_iff.mpr (.inr ⟨m, hm, hmessage⟩)⟩
    obtain ⟨message, hmessage⟩ := htext
    refine ⟨_, map_eq_ok_iff.mpr ⟨(some false, message, ()), ?_, rfl⟩, rfl⟩
    exact (takeRecord_iff_told (by decide)).mpr ⟨hfalse, hmessage, trivial⟩

/-- A list says that the service is not well by its two elements. -/
theorem unwell_array_iff {items : List Json} :
    (∃ body, HealthBody.decoder.ofTree content (.array items) = .ok body ∧ body.ok = some false) ↔
      TellsUnwell (.array items) := by
  constructor
  · rintro ⟨body, hbody, hok⟩
    obtain ⟨⟨ok, message, ⟨⟩⟩, htake, rfl⟩ := map_eq_ok_iff.mp hbody
    cases hok
    have helements := takeRecord_array_iff.mp htake
    rcases items with _ | ⟨a, _ | ⟨b, more⟩⟩
    · cases (takeElements_nil_iff.mp helements).1
    · obtain ⟨hfalse, -⟩ := takeElements_cons_iff.mp helements
      exact .inl (by rw [optional_bool_iff.mp hfalse])
    · obtain ⟨hfalse, hrest⟩ := takeElements_cons_iff.mp helements
      obtain ⟨htext, hend⟩ := takeElements_cons_iff.mp hrest
      obtain rfl := takeElements_end_iff.mp hend
      exact .inr ⟨b, by rw [optional_bool_iff.mp hfalse], mayBeText_iff.mp ⟨message, htext⟩⟩
  · rintro (rfl | ⟨m, rfl, hm⟩)
    · exact ⟨⟨some false, none⟩, rfl, rfl⟩
    · obtain ⟨message, htext⟩ := mayBeText_iff.mpr hm
      refine ⟨_, map_eq_ok_iff.mpr ⟨(some false, message, ()), ?_, rfl⟩, rfl⟩
      refine takeRecord_array_iff.mpr (takeElements_cons_iff.mpr ⟨rfl, ?_⟩)
      exact takeElements_cons_iff.mpr ⟨htext, rfl⟩

/-- The answer to a probe that is taken from a tree says that the service is not well exactly if the
tree does. -/
theorem tellsUnwell_iff :
    (∃ body, HealthBody.decoder.ofTree content j = .ok body ∧ body.ok = some false) ↔
      TellsUnwell j := by
  cases j with
  | object ms => exact unwell_object_iff
  | array items => exact unwell_array_iff
  | _ => exact iff_of_false (fun ⟨_, h, _⟩ => nomatch h) id

end Bodies

theorem saysUnwell_iff_decodes {r : Http.Response} : SaysUnwell r ↔
    ∃ bytes ∈ r.bytes?, ∃ body,
      HealthBody.decoder.decode (Symbol.ofBytes bytes) = .ok body ∧ body.ok = some false := by
  rw [SaysUnwell, Http.Response.decode?]
  cases r.bytes? with
  | none => simp
  | some bytes =>
      simp only [Option.bind_eq_bind, Option.bind_some, Option.mem_def, Option.some.injEq,
        exists_eq_left']
      cases HealthBody.decoder.decode (Symbol.ofBytes bytes) <;> simp [Except.toOption]

/-- What a body says that is a JSON text is what its tree tells. -/
theorem saysUnwell_iff_tells {r : Http.Response} {bytes : Bytes} (hbytes : bytes ∈ r.bytes?)
    {j : Json} (hplain : Json.Decoder.plain (Symbol.ofBytes bytes) = .ok j) :
    SaysUnwell r ↔ TellsUnwell j := by
  have hagrees := healthBody_agrees.decode_iff hplain .kept
  rw [saysUnwell_iff_decodes]
  constructor
  · rintro ⟨_, hbytes', body, hdecode, hok⟩
    cases Option.mem_unique hbytes hbytes'
    exact tellsUnwell_iff.mp ⟨body, (hagrees body).mp hdecode, hok⟩
  · intro htells
    obtain ⟨body, htake, hok⟩ := tellsUnwell_iff.mpr htells
    exact ⟨bytes, hbytes, body, (hagrees body).mpr htake, hok⟩

/-- A text that a record can be read from starts with a bracket or a brace. -/
def Opens (text : List Symbol) : Prop :=
  ∃ s ∈ (text.dropWhile Json.Reader.isSpace).head?, s = .char '[' ∨ s = .char '\x7b'

theorem opens_of_saysUnwell {r : Http.Response} (h : SaysUnwell r) :
    ∃ bytes ∈ r.bytes?, Opens (Symbol.ofBytes bytes) := by
  obtain ⟨bytes, hbytes, body, hdecode, -⟩ := saysUnwell_iff_decodes.mp h
  obtain ⟨rest, hread, -⟩ := Json.Reader.run_ok_iff.mp hdecode
  obtain ⟨row, hrow, -⟩ := Steps.map_ok_iff.mp hread
  exact ⟨bytes, hbytes, Json.Decoder.leaves_readRecord _ _ hrow⟩

theorem judgeProbe_status (r : Http.Response) : (judgeProbe r).status = r.status := by
  rw [judgeProbe]
  split <;> rfl

theorem judgeProbe_ok_iff (r : Http.Response) :
    (judgeProbe r).ok = true ↔ r.isSuccess = true ∧ ¬SaysUnwell r := by
  rw [judgeProbe, SaysUnwell]
  cases r.decode? HealthBody.decoder with
  | none => simp
  | some body => rcases hok : body.ok with _ | _ | _ <;> simp [hok]

end Ledger

namespace Crew

/-- A single report changes what one monitor knows of one service. -/
theorem lookouts_of_single (crew : Crew) (now : Time.Instant) {event : Event} {place : Nat}
    {service : Service} {report : Report}
    (htells : crew.tells now event = some (place, .single service report)) (j : Nat) :
    (crew.step now event).1.lookouts[j]? = (crew.lookouts[j]?).map fun k =>
      if place = j then
        { k with monitor := { k.monitor with latest := k.monitor.latest.set service report } }
      else k := by
  rw [lookouts_step, htells]
  rfl

end Crew

namespace Ledger

/-- What a report makes of the response to a probe: it has the status of the response, and the
service counts as connected exactly if the status is one of success and the body does not say
otherwise. A body that can be read as a tree says otherwise exactly if the tree tells so, and a body
that opens no container never does. -/
structure Verdict (r : Http.Response) (report : Report) : Prop where
  status : report.status = some r.status
  connected : report.connected = true ↔ r.isSuccess = true ∧ ¬SaysUnwell r
  tells : ∀ bytes ∈ r.bytes?, ∀ j, Json.Decoder.plain (Symbol.ofBytes bytes) = .ok j →
    (SaysUnwell r ↔ TellsUnwell j)
  opens : SaysUnwell r → ∃ bytes ∈ r.bytes?, Opens (Symbol.ofBytes bytes)

theorem verdict_ofOutcome (r : Http.Response) (now : Time.Instant) :
    Verdict r (.ofOutcome (.ok (judgeProbe r)) now) where
  status := congrArg some (judgeProbe_status r)
  connected := judgeProbe_ok_iff r
  tells _ hbytes _ hplain := saysUnwell_iff_tells hbytes hplain
  opens := opens_of_saysUnwell

/-- A single probe of a service ends with a report, whatever the server answers and if it does not.
Without a response the service counts as not connected, and the report has no status. With one the
report is a verdict on the response. Whoever is told of the report keeps it as the latest on the
service, and nothing else is changed. -/
theorem probe_verdict {σ : Type} (names : Http.Names) (exchange : Http.Exchange (StateM σ))
    (servers : Servers) (st : σ) (service : Service) (now : Time.Instant) :
    ∃ outcome later report,
      ((overHttp names exchange servers).health service).run st = (outcome, later) ∧
      report = Report.ofOutcome outcome now ∧ report.checkedAt = now ∧
      ((report.status = none ∧ report.connected = false ∧
          (later = st ∨ ∃ request ∈ requestTo names .get (servers.base service ++ "/health") none,
            (exchange request).run st = (none, later))) ∨
        ∃ request ∈ requestTo names .get (servers.base service ++ "/health") none, ∃ r,
          (exchange request).run st = (some r, later) ∧ Verdict r report) ∧
      ∀ (crew : Crew) (event : Crew.Event) (place : Nat),
        crew.tells now event = some (place, .single service report) →
        ∀ j, (crew.step now event).1.lookouts[j]? = (crew.lookouts[j]?).map fun k =>
          if place = j then
            { k with monitor := { k.monitor with latest := k.monitor.latest.set service report } }
          else k := by
  have hcomes := comes_health names exchange servers st service
  rcases hrun : ((overHttp names exchange servers).health service).run st with ⟨outcome, later⟩
  rw [hrun] at hcomes
  refine ⟨outcome, later, _, rfl, rfl, ?_, ?_, fun crew event place htells =>
    crew.lookouts_of_single now htells⟩
  · cases outcome <;> rfl
  · cases hcomes with
    | unsent reason => exact .inl ⟨rfl, rfl, .inl rfl⟩
    | unanswered reason hrequest hexchange =>
        exact .inl ⟨rfl, rfl, .inr ⟨_, hrequest, hexchange⟩⟩
    | answered hrequest hexchange =>
        exact .inr ⟨_, hrequest, _, hexchange, verdict_ofOutcome _ now⟩

/-- A body that says that the service is not well, with a message that is no text. -/
def unwellBody : String := "\x7b\"ok\":false,\"message\":\x7b\"text\":\"warming up\"\x7d\x7d"

/-- The body is an object in which `ok` is false, and the service counts as connected. -/
theorem unwell_overlooked :
    ((Json.parse (Symbol.ofBytes (Bytes.ofText unwellBody))).toOption.bind (Json.member? "ok")).any
      (fun | .bool b => !b | _ => false) = true ∧
    (Report.ofOutcome (((overHttp plainNames (answering unwellBody) sampleServers).health .node).run ()).1
      .epoch).connected = true := by
  decide +kernel

end Ledger
end WalletEngine
