import WalletEngine.Proofs.Relay.Requests
import WalletEngine.Proofs.Relay.Service
import WalletEngine.Proofs.Store.Balances
import WalletEngine.Web.Router

/-! # The entrances to the coordinator

A message reaches the coordinator in three ways: it is handled at once, it is told through a handle, or
it is posted to the web surface. All three refuse the same messages in the same words, and all three
give the reply to the request that the message is. What is posted is a text, so a request whose amount
does not read back is another request by then; and a text that is too long is not even read.
-/

namespace WalletEngine

open Json Relay Steps

namespace Web

/-- The answer of the web surface that has a value. -/
def answerWith (status : Nat) (value : Json) : Response :=
  (Response.json status value).addHeaders openHeaders

/-- The answer to a body that is too long. -/
def tooLong : Response :=
  (Response.plain 413 "Failed to buffer the request body: length limit exceeded").addHeaders openHeaders

/-- A request that posts its body to the coordinator. -/
structure IsPost (r : Request) : Prop where
  method : r.method = "POST"
  path : Route.at? r.path = some .relay
  type : ((r.header? "content-type").bind Http.MediaType.parse?).elim false (·.isJson) = true

/-- A request that posts a text of a message, which is not too long. -/
structure Posts (r : Request) (message : Json) : Prop extends IsPost r where
  short : r.body.length ≤ bodyLimit
  reads : parsePrefix (Symbol.ofBytes r.body) = .ok message

section Posts
variable {m : Type → Type} [Monad m] {name : String} {line : Line m} {r : Request} {message : Json}

theorem respond_eq_relay (h : IsPost r) :
    respond name line r = (do return (← relay line r).addHeaders openHeaders) := by
  rw [respond, h.path, h.method]
  rfl

variable [LawfulMonad m]

/-- What is too long is not handed on. -/
theorem respond_of_long (h : IsPost r) (hlong : bodyLimit < r.body.length) :
    respond name line r = pure tooLong := by
  have hbody : readBody r =
      .error (.plain 413 "Failed to buffer the request body: length limit exceeded") := by
    rw [readBody, h.type, if_pos hlong]
    rfl
  rw [respond_eq_relay h, relay, hbody]
  exact pure_bind _ _

theorem respond_of_posts (h : Posts r message) :
    respond name line r = (do
      match Relay.Request.ofMessage message with
      | .error refusal => return answerWith 400 (.object [("error", .string refusal.message)])
      | .ok request =>
        match ← line.request request with
        | some reply => return answerWith 200 reply.toJson
        | none => return answerWith 503 (.object [("error", .string Fault.closed.message)])) := by
  have hbody : readBody r = .ok message := by
    rw [readBody, h.type, if_neg (Nat.not_lt.mpr h.short), h.reads]
    rfl
  rw [respond_eq_relay h.toIsPost, relay, hbody]
  dsimp only
  cases Relay.Request.ofMessage message with
  | error refusal => exact pure_bind _ _
  | ok request =>
      rw [bind_assoc]
      refine bind_congr fun reply => ?_
      cases reply with
      | none => exact pure_bind _ _
      | some reply => exact pure_bind _ _

end Posts
end Web

namespace Relay

theorem Line.tell_of_ok {m : Type → Type} [Monad m] {line : Line m} {message : Json}
    {request : Request} (h : Request.ofMessage message = .ok request) :
    line.tell message = line.ask request := by
  rw [tell, h]

namespace Office
variable {start : String} {store : Store} {s : Office}

/-- A call was served with this reply, which is the one to its own request. -/
def Delivers (start : String) (store : Store) (s : Office) (request : Request)
    (schedule : List Happening) (reply : Reply) : Prop :=
  ∃ t ∈ (s.after start store request schedule).tasks,
    t.call = ⟨s.made.length, request⟩ ∧ t.Yields start store reply

/-- A message that is no request is refused by all entrances, and nothing is called. -/
theorem refused_everywhere (name : String) {message : Json} {refusal : Refusal}
    (hmessage : Request.ofMessage message = .error refusal) (schedule : List Happening) :
    (∀ moment approver disk probe, replyToMessage moment start store approver disk probe message =
      .error ⟨refusal.message⟩) ∧
    outcome ((line start store schedule).tell message) s = (.error (.refused refusal), s) ∧
    ∀ post, Web.Posts post message →
      (Web.respond name (line start store schedule) post).run s =
        (Web.answerWith 400 (.object [("error", .string refusal.message)]), s) := by
  refine ⟨fun moment approver disk probe =>
    replyToMessage_of_error moment start store approver disk probe hmessage, ?_,
    fun post hpost => ?_⟩
  · rw [Line.tell, hmessage]
    rfl
  · rw [Web.respond_of_posts hpost, hmessage]
    rfl

/-- A message that is a request is answered by all entrances with the reply to that request. -/
theorem delivered_everywhere (h : Sound start store s) (hopen : s.desk.isOpen = true) (name : String)
    {message : Json} {request : Request} (hmessage : Request.ofMessage message = .ok request)
    {schedule : List Happening} (hserves : s.Serves start store request schedule) :
    ∃ reply, s.Delivers start store request schedule reply ∧
      outcome ((line start store schedule).tell message) s =
        (.ok reply, s.after start store request schedule) ∧
      ∀ post, Web.Posts post message →
        (Web.respond name (line start store schedule) post).run s =
          (Web.answerWith 200 reply.toJson, s.after start store request schedule) := by
  obtain ⟨t, reply, ht, hcall, hyields, hline⟩ := answered_of_serves h hopen hserves
  refine ⟨reply, ⟨t, ht, hcall, hyields⟩, ?_, fun post hpost => ?_⟩
  · rw [Line.tell_of_ok hmessage, Line.outcome_ask hline]
  · rw [Web.respond_of_posts hpost, hmessage, run_bind_of_run hline]
    rfl

/-- Every message, at every office with an open desk. If it is no request, it is refused in the same
words wherever it comes in, and nothing is called. If it is one, each entrance gives the reply to that
request, and whatever happens, the call can still be served. The value of a request is the message of
that request, so handled at once or through a handle it gets the reply to it. Its text is posted as the
request reread, which is the same one exactly if the amount reads back. All of this holds for bodies up
to a length; a longer one is refused, whatever is in it, and nothing is called. -/
theorem entrances_agree (h : Sound start store s) (hopen : s.desk.isOpen = true) (name : String) :
    (∀ message refusal, Request.ofMessage message = .error refusal → ∀ schedule,
      (∀ moment approver disk probe,
        replyToMessage moment start store approver disk probe message =
          .error ⟨refusal.message⟩) ∧
      outcome ((line start store schedule).tell message) s = (.error (.refused refusal), s) ∧
      ∀ post, Web.Posts post message →
        (Web.respond name (line start store schedule) post).run s =
          (Web.answerWith 400 (.object [("error", .string refusal.message)]), s)) ∧
    (∀ message request, Request.ofMessage message = .ok request →
      (∀ moment approver disk probe,
        replyToMessage moment start store approver disk probe message =
          replyTo moment start store approver disk probe request) ∧
      (∀ schedule, .close ∉ schedule → ∀ approver,
        ∃ more, (∀ happening ∈ more, Proceeds approver happening) ∧
          s.Serves start store request (schedule ++ more)) ∧
      ∀ schedule, s.Serves start store request schedule →
        ∃ reply, s.Delivers start store request schedule reply ∧
          outcome ((line start store schedule).tell message) s =
            (.ok reply, s.after start store request schedule) ∧
          ∀ post, Web.Posts post message →
            (Web.respond name (line start store schedule) post).run s =
              (Web.answerWith 200 reply.toJson, s.after start store request schedule)) ∧
    (∀ request : Request, request.IsFinite →
      (∀ moment approver disk probe,
        replyToMessage moment start store approver disk probe request.toJson.sorted =
          replyTo moment start store approver disk probe request) ∧
      (∀ schedule, (line start store schedule).tell request.toJson.sorted =
        (line start store schedule).ask request) ∧
      (∀ post schedule, Web.IsPost post → post.body.length ≤ Web.bodyLimit →
        post.body = Bytes.ofText request.toJson.sorted.compact →
        s.Serves start store request.reread schedule →
        ∃ reply, s.Delivers start store request.reread schedule reply ∧
          (Web.respond name (line start store schedule) post).run s =
            (Web.answerWith 200 reply.toJson, s.after start store request.reread schedule)) ∧
      (request.reread = request ↔ request.ReadsBack)) ∧
    ∀ post schedule, Web.IsPost post → Web.bodyLimit < post.body.length →
      (Web.respond name (line start store schedule) post).run s = (Web.tooLong, s) := by
  refine ⟨fun message refusal hmessage schedule => refused_everywhere name hmessage schedule,
    fun message request hmessage => ⟨fun moment approver disk probe =>
      replyToMessage_of_ok moment start store approver disk probe hmessage, ?_, ?_⟩,
    fun request hfinite => ⟨fun moment approver disk probe =>
      replyToMessage_of_ok moment start store approver disk probe request.ofMessage_sorted,
      fun schedule => Line.tell_of_ok request.ofMessage_sorted, ?_, Request.reread_eq_iff hfinite⟩,
    fun post schedule hpost hlong => ?_⟩
  · intro schedule hstays approver
    exact exists_serves h hopen request hstays approver
  · intro schedule hserves
    exact delivered_everywhere h hopen name hmessage hserves
  · intro post schedule hpost hshort hbody hserves
    have hread := Request.parsePrefix_text hfinite
    rw [← hbody] at hread
    obtain ⟨reply, hdelivers, -, hposted⟩ :=
      delivered_everywhere h hopen name request.reread.ofMessage_sorted hserves
    exact ⟨reply, hdelivers, hposted post ⟨hpost, hshort, hread⟩⟩
  · rw [Web.respond_of_long hpost hlong]
    rfl

/-! ## Requests at the sample office -/

/-- A request is posted as its text. -/
def posted (request : Request) : Web.Request :=
  { method := "POST"
    target := "/bridge"
    headers := [("content-type", "application/json")]
    body := Bytes.ofText request.toJson.sorted.compact }

theorem isPost_posted (request : Request) : Web.IsPost (posted request) where
  method := rfl
  path := by
    change Web.Route.at? (String.ofList (("/bridge" : String).toList.takeWhile _)) = _
    decide +kernel
  type := by
    change (((List.find? _ [("content-type", "application/json")]).map _).bind _).elim _ _ = true
    decide +kernel

theorem body_posted (request : Request) :
    (posted request).body = Bytes.ofText request.toJson.sorted.compact := rfl

/-- What is no request is refused, and a request whose amount reads back is posted as itself. -/
theorem entrances_agree_sample :
    let s : Office := { disk := walletDisk }
    let request := Request.sign sampleTransfer
    let schedule := prompt (Store.sampleVisit .load).moment fun _ => true
    (Sound "/" ⟨"data"⟩ s ∧ s.desk.isOpen = true) ∧
    outcome ((line "/" ⟨"data"⟩ schedule).tell .null) s =
      (.error (.refused (.unsupported "<missing>")), s) ∧
    request.reread = request ∧
    ∃ reply, s.Delivers "/" ⟨"data"⟩ request schedule reply ∧
      (Web.respond "engine" (line "/" ⟨"data"⟩ schedule) (posted request)).run s =
        (Web.answerWith 200 reply.toJson, s.after "/" ⟨"data"⟩ request schedule) := by
  intro s request schedule
  obtain ⟨hrefused, -, htyped, -⟩ := entrances_agree (sound_opened walletDisk) rfl "engine"
  have hfinite : request.IsFinite := (rfl : Store.ten.isFinite = true)
  obtain ⟨-, -, hposted, hreread⟩ := htyped request hfinite
  have hsame : request.reread = request := hreread.mpr Store.readsBack_ten
  have hnull : Request.ofMessage .null = .error (.unsupported "<missing>") := by decide +kernel
  refine ⟨⟨sound_opened walletDisk, rfl⟩, (hrefused .null _ hnull schedule).2.1, hsame, ?_⟩
  have hserves : s.Serves "/" ⟨"data"⟩ request.reread schedule := by
    obtain ⟨result, hbegin, -⟩ := begin_sign (Store.sampleVisit .load).moment "/" ⟨"data"⟩
      (fun _ => true) walletDisk sampleTransfer
    rw [hsame]
    exact serves_prompt hbegin
  have hreply := hposted (posted request) schedule (isPost_posted request)
    (by decide +kernel) (body_posted request) hserves
  rwa [hsame] at hreply

/-- A transfer of the sample wallet whose amount does not read back. -/
def driftingTransfer : Transfer := { sampleTransfer with amount := Store.drifting }

/-- The same transfer, as its text is read. -/
def driftedTransfer : Transfer := { sampleTransfer with amount := ⟨0x3fbeb851eb851eb8⟩ }

/-- An owner who wants smaller amounts only. -/
def thrifty : Approver := fun t => t.amount.lessThan Store.drifting

theorem begin_driftingTransfer (moment : Moment) :
    ((coordinatorOn moment "/" ⟨"data"⟩ thrifty).begin (.sign driftingTransfer)).run walletDisk =
      (.answered (.signature (.failed Fault.rejected.message)), walletDisk) := by
  have hdenied : thrifty driftingTransfer = false := by decide +kernel
  rw [Coordinator.begin,
    run_bind_of_run (run_sign_of_denied moment "/" ⟨"data"⟩ thrifty walletDisk hdenied)]
  rfl

theorem begin_driftedTransfer (moment : Moment) :
    ((coordinatorOn moment "/" ⟨"data"⟩ thrifty).begin (.sign driftedTransfer)).run walletDisk =
      (.answered (.signature (.signed
        (Keyring.signature Store.sampleSecret driftedTransfer.toJson))), walletDisk) := by
  obtain ⟨result, hbegin, hconsistent, hresult⟩ :=
    begin_sign moment "/" ⟨"data"⟩ thrifty walletDisk driftedTransfer
  have hauthorised : IsAuthorised thrifty walletDisk (Store.placeFrom "/" ⟨"data"⟩) driftedTransfer
      (Keyring.signature Store.sampleSecret driftedTransfer.toJson) :=
    ⟨by decide +kernel, by decide +kernel, by decide +kernel, Store.sampleWallet (.zero false),
      storedWallet_sampleStore, rfl, rfl⟩
  rw [hbegin, hconsistent.eq_signed ((hresult _).mpr hauthorised)]

/-- A transfer that the owner does not want is refused to whoever hands its request over as a value,
and signed, for a smaller amount, for whoever posts the text of the same value. -/
theorem posted_request_differs :
    let s : Office := { disk := walletDisk }
    let request := Request.sign driftingTransfer
    let moment := (Store.sampleVisit .load).moment
    let schedule := prompt moment thrifty
    request.IsFinite ∧
    replyToMessage moment "/" ⟨"data"⟩ thrifty walletDisk (fun _ => pure fineReport)
      request.toJson.sorted = .signature (.failed Fault.rejected.message) ∧
    (outcome ((line "/" ⟨"data"⟩ schedule).tell request.toJson.sorted) s).1 =
      .ok (.signature (.failed Fault.rejected.message)) ∧
    ((Web.respond "engine" (line "/" ⟨"data"⟩ schedule) (posted request)).run s).1 =
      Web.answerWith 200 (Reply.signature (.signed
        (Keyring.signature Store.sampleSecret driftedTransfer.toJson))).toJson := by
  intro s request moment schedule
  have hfinite : request.IsFinite := (rfl : Store.drifting.isFinite = true)
  have hreread : request.reread = .sign driftedTransfer := by
    have hdrifting : Store.drifting.reread = driftedTransfer.amount := by decide +kernel
    exact congrArg (fun amount => Request.sign { sampleTransfer with amount }) hdrifting
  have hread : parsePrefix (Symbol.ofBytes (posted request).body) =
      .ok (Request.sign driftedTransfer).toJson.sorted := by
    rw [body_posted, Request.parsePrefix_text hfinite, hreread]
  have hdenied := begin_driftingTransfer moment
  refine ⟨hfinite, ?_, ?_, ?_⟩
  · rw [replyToMessage_of_ok moment "/" ⟨"data"⟩ thrifty walletDisk _ request.ofMessage_sorted,
      replyTo, handle_of_answered moment "/" ⟨"data"⟩ thrifty walletDisk _ hdenied]
  · rw [Line.tell_of_ok request.ofMessage_sorted, Line.outcome_ask (request_prompt hdenied)]
  · rw [Web.respond_of_posts ⟨isPost_posted request, by decide +kernel, hread⟩, Request.ofMessage_sorted,
      run_bind_of_run (request_prompt (begin_driftedTransfer moment))]
    rfl

end Office
end Relay
end WalletEngine
