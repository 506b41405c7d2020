import WalletEngine.Rehearsal.Script
import WalletEngine.Rehearsal.Visits
import WalletEngine.Surface.Page
import WalletEngine.Surface.SendDesk
import WalletEngine.Web.Router

/-! # Sessions

A session goes through steps, one after the other, with what earlier steps have left in its hands: a
store, a lookout, a coordinator or the counter it was put behind, a page, a send desk, a poller.
Every step has an outcome, and a step that fails does not end the session.
-/

namespace WalletEngine.Rehearsal
open Liveness (Service Report Overview)

/-- One step of a session. -/
inductive Step where
  | putFile (name : String) (content : Bytes)
  | makeDirectory (name : String)
  | remove (name : String)
  | getFile (name : String)
  | listFiles
  | openStore (directory : String)
  | load
  | snapshot
  | version
  | create
  | setBalance (expected : Option UInt64) (balance : Binary64)
  | recordHealth (overview : Overview)
  | health
  | sign (transfer : Transfer)
  | signTransfer (transfer : Transfer)
  | verify (transfer : SignedTransfer)
  /-- Change the answers of the ledger. -/
  | instruct (change : Answers → Answers)
  | sleep (duration : Nat)
  | shutDown
  | hireLookout (caching : Bool)
  | probe (service : Service)
  | survey
  | latest
  | surveyTwice
  | prepareCoordinator (approver : Relay.Approver) (healthEvery : Nat)
  /-- Have the coordinator handle a message before it is behind a counter. -/
  | message (message : Json)
  | openCounter
  | send (message : Json)
  /-- Send a message and give up after some milliseconds. -/
  | sendFor (message : Json) (limit : Nat)
  /-- Let go of the counter and of the page. -/
  | leaveCounter
  | isCounterClosed
  | openPage
  | page (call : Surface.Page.Call)
  | openSendDesk (refreshing : Bool)
  | submit (form : Surface.SendForm)
  | requestFunds (amount : Binary64)
  | startPoller (refreshEvery healthEvery : Nat)
  | panel
  | refresh
  | stopPoller
  | awaitChange (limit : Nat)
  | web (name : String) (request : Web.Request)

/-- The outcome of a step. -/
inductive Outcome where
  | done
  /-- Something is missing that the step works with. -/
  | unprepared
  | fault (fault : Fault)
  | flag (flag : Bool)
  | text (text : Option String)
  | names (names : List String)
  | wallet (wallet : Option Wallet)
  | created (wallet : Wallet)
  | snapshot (found : Option (UInt64 × Wallet))
  | version (version : UInt64)
  | overview (overview : Option Overview)
  | overviews (one two : Option Overview)
  | report (report : Report)
  /-- A signature, and whether it is that of the stored wallet. -/
  | signature (signature : String) (verified : Bool)
  | record (transfer : SignedTransfer) (verified : Bool)
  /-- A reply; if it has a signature, with whether that is the one of the stored wallet. -/
  | reply (reply : Relay.Reply) (verified : Option Bool)
  /-- What came back in time. -/
  | replyFor (reply : Option Relay.Reply)
  | receipt (receipt : Ledger.Receipt)
  | submitted (result : Except Fault Ledger.Receipt) (form : Surface.SendForm)
  | funds (receipt : Ledger.FaucetReceipt)
  | amount (amount : Binary64)
  | panel (panel : Polling.Panel)
  | change (change : Cast.Change)
  | response (response : Web.Response)

/-- A coordinator that is not behind a counter yet. -/
structure Prepared where
  store : Store
  approver : Relay.Approver
  lookout : Nat
  healthEvery : Nat

/-- What a session has in its hands. -/
structure Session where
  store : Option Store := none
  lookout : Option Nat := none
  coordinator : Option Prepared := none
  counter : Option Nat := none
  /-- The page with the counter that it goes to. -/
  page : Option (Nat × Surface.Session) := none
  poller : Option Nat := none
  /-- The send desk, with the poller that it refreshes. -/
  sendDesk : Option (Option Nat) := none

/-- A part of a session. -/
abbrev Scene := StateT Session (Play Script)

namespace Session

/-- The machine of a session. -/
abbrev machine : Host (Play Script) := host

/-- The path of a name in the directory of the store. -/
def dataPath (name : String) : Scene Disk.Path :=
  return Disk.parts (joinPath (joinPath workingDirectory "data") name)

def onDisk (change : Disk → Except FileFault Disk) : Scene Outcome := do
  modifyThe (World Script) fun w => { w with disk := (change w.disk).toOption.getD w.disk }
  return .done

def disk : Scene Disk := return (← getThe (World Script)).disk

def settle {α : Type} (outcome : α → Outcome) (action : Action (Play Script) α) : Scene Outcome :=
  return match ← action.run with
  | .ok a => outcome a
  | .error fault => .fault fault

/-- The outcome of an action of the store that is in hand. -/
def withStore {α : Type} (outcome : α → Outcome)
    (action : Store → ExceptT Store.Fault (Play Script) α) : Scene Outcome := do
  match (← get).store with
  | some store => settle outcome (Action.ofStore (action store))
  | none => return .unprepared

/-- Goes on with what is in hand. -/
def having {α : Type} (part : Session → Option α) (next : α → Scene Outcome) : Scene Outcome := do
  match part (← get) with
  | some a => next a
  | none => return .unprepared

/-- The stored wallet, if there is one that can be read. -/
def wallet? : Scene (Option Wallet) := do
  match (← get).store with
  | some store => return ((← (store.load machine).run).toOption.join)
  | none => return none

/-- Whether a signed transfer has the signature of the stored wallet. -/
def isOwn (r : SignedTransfer) : Scene Bool := return (← wallet?).any (r.verifies ·.secret)

def signed (transfer : Transfer) (action : Action (Play Script) String) : Scene Outcome := do
  match ← action.run with
  | .ok signature => return .signature signature (← isOwn (transfer.signed signature))
  | .error fault => return .fault fault

/-- The lookout in hand, which is hired if there is none. -/
def lookoutInHand : Scene Nat := do
  match (← get).lookout with
  | some index => return index
  | none =>
    let index ← scripted.hireLookout none
    modify fun s => { s with lookout := some index }
    return index

def replied (message : Json) (reply : Relay.Reply) : Scene Outcome := do
  match reply.signature?, Relay.Request.ofMessage message with
  | some signature, .ok (.sign t) => return .reply reply (some (← isOwn (t.signed signature)))
  | _, _ => return .reply reply none

/-- Closes a counter, unless `kept` is the same one. -/
def letGo (counter kept : Option Nat) : Scene Unit := do
  if let some index := counter then
    if kept != some index then scripted.happen (.counter index .close)

def fileStep : Step → Scene Outcome
  | .putFile name content => do
    let path ← dataPath name
    onDisk fun disk => do
      (← disk.makeDirectories [] path.dropLast).writeBytes path fun _ => content
  | .makeDirectory name => do
    let path ← dataPath name
    onDisk fun disk => disk.makeDirectories [] path
  | .remove name => do
    let path ← dataPath name
    onDisk fun disk => .ok ⟨disk.entries.filter fun entry => !path.isPrefixOf entry.1⟩
  | .getFile name => return .text ((← disk).readText (← dataPath name)).toOption
  | _ => return .names ((← disk).list (← dataPath ""))

def storeStep : Step → Scene Outcome
  | .openStore directory => do
    match ← (Store.openAt machine (joinPath workingDirectory directory)).run with
    | .ok store =>
      modify fun s => { s with store := some store }
      return .text store.path
    | .error fault => return .fault (.store fault)
  | .load => withStore .wallet (·.load machine)
  | .snapshot => withStore .snapshot (·.snapshot machine)
  | .version => withStore .version (·.version machine)
  | .create => withStore .created fun store => do
    discard (store.load machine)
    store.create host
  | .setBalance expected balance => withStore .version (·.setBalance machine expected balance)
  | .recordHealth overview => withStore (fun _ => .done) (·.recordHealth machine overview)
  | _ => withStore .overview (·.health machine)

/-- The outcome of a step that signs or verifies with the stored wallet. -/
def signingStep : Step → Scene Outcome
  | .sign t => having Session.store fun store => signed t (Signing.sign machine store t)
  | .signTransfer t => having Session.store fun store => do
    match ← (Signing.signTransfer machine store t).run with
    | .ok r => return .record r (← isOwn r)
    | .error fault => return .fault fault
  | .verify r => having Session.store fun store => settle .flag (Signing.verify machine store r)
  | _ => return .unprepared

def lookoutStep : Step → Scene Outcome
  | .hireLookout caching => do
    let store := (← get).store
    let index ← scripted.hireLookout (if caching then store else none)
    modify fun s => { s with lookout := some index }
    return .done
  | .probe service => do return .report (← scripted.probe ledger (← lookoutInHand) service)
  | .survey => do return .overview (← scripted.survey (← lookoutInHand))
  | .surveyTwice => do
    let (one, two) ← scripted.surveyTwice (← lookoutInHand)
    return .overviews one two
  | _ => do
    let index ← lookoutInHand
    return .overview (Cast.latest? index (← getThe (World Script)))

def counterStep : Step → Scene Outcome
  | .prepareCoordinator approver healthEvery => having Session.store fun store => do
    let lookout ← lookoutInHand
    modify fun s => { s with coordinator := some { store, approver, lookout, healthEvery } }
    return .done
  | .message message => having Session.coordinator fun c => do
    let coordinator : Relay.Coordinator (Play Script) :=
      { host := machine, store := c.store, approver := c.approver }
    replied message (← coordinator.handleMessage (scripted.probe ledger c.lookout) message)
  | .openCounter => having Session.coordinator fun c => do
    let s ← get
    letGo s.counter (s.page.map (·.1))
    let index ← scripted.hireCounter c.store c.approver c.lookout c.healthEvery
    set { s with coordinator := none, counter := some index }
    return .done
  | .send message => having Session.counter fun index => do
    match ← ((scripted.line index).tell message).run with
    | .ok reply => replied message reply
    | .error fault => return .fault fault
  | .sendFor message limit => having Session.counter fun index => do
    match Relay.Request.ofMessage message with
    | .error refusal => return .fault (.refused refusal)
    | .ok request =>
      let id ← scripted.call index request
      match ← scripted.awaitFor limit (Cast.outcome? index id) with
      | some none => return .fault .closed
      | reply => return .replyFor reply.join
  | .leaveCounter => do
    let s ← get
    letGo s.counter none
    letGo (s.page.map (·.1)) none
    set { s with counter := none, page := none }
    return .done
  | _ => do
    let w ← getThe (World Script)
    return .flag (w.crew.counters.getLast?.any (!·.desk.isOpen))

def called (call : Surface.Page.Call) : Except Fault Surface.Page.Answer → Scene Outcome
  | .error fault => return .fault fault
  | .ok (.session session) => return .text session
  | .ok (.flag flag) => return .flag flag
  | .ok (.signature signature) => do
    let verified ← match call with
      | .sign t => isOwn (t.signed signature)
      | _ => pure false
    return .signature signature verified
  | .ok (.receipt receipt) => return .receipt receipt
  | .ok (.balance balance) => return .amount balance

def pageStep (step : Step) : Scene Outcome :=
  match step with
  | .page call => having Session.page fun (index, session) => do
    let page : Surface.Page (Play Script) :=
      { host := machine, line := scripted.line index, ledger }
    let (answer, session) ← page.step session call
    modify fun s => { s with page := some (index, session) }
    called call answer
  | _ => having Session.counter fun index => do
    modify fun s => { s with page := some (index, none) }
    return .done

def sendDeskStep (step : Step) : Scene Outcome :=
  match step with
  | .openSendDesk refreshing => do
    modify fun s => { s with sendDesk := some (if refreshing then s.poller else none) }
    return .done
  | step => having Session.store fun store => having Session.sendDesk fun target => do
    let refresh : Play Script Unit := match target with
      | some index => scripted.happen (.poller index .request)
      | none => pure ()
    let desk : Surface.SendDesk (Play Script) := { host := machine, store, ledger, refresh }
    match step with
    | .submit form =>
      let (result, form) ← desk.submit form
      return .submitted result form
    | .requestFunds amount => settle .funds (desk.requestFunds amount)
    | _ => return .unprepared

def shown (index : Nat) : Scene Outcome := do
  match Cast.scheduler? index (← getThe (World Script)) with
  | some scheduler => return .panel scheduler.panel
  | none => return .unprepared

def pollerStep (step : Step) : Scene Outcome :=
  match step with
  | .startPoller refreshEvery healthEvery => having Session.store fun store => do
    let lookout ← lookoutInHand
    if let some old := (← get).poller then scripted.happen (.poller old .stop)
    let index ← scripted.hirePoller store lookout refreshEvery healthEvery
    modify fun s => { s with poller := some index }
    shown index
  | step => having Session.poller fun index => do
    match step with
    | .refresh =>
      scripted.happen (.poller index .request)
      return .done
    | .stopPoller =>
      scripted.happen (.poller index .stop)
      return .done
    | .awaitChange limit => return .change (← scripted.awaitChange index limit)
    | _ => shown index

def perform (step : Step) : Scene Outcome :=
  match step with
  | .putFile .. | .makeDirectory _ | .remove _ | .getFile _ | .listFiles => fileStep step
  | .openStore _ | .load | .snapshot | .version | .create | .setBalance .. | .recordHealth _
  | .health => storeStep step
  | .sign _ | .signTransfer _ | .verify _ => signingStep step
  | .instruct change => do
    modifyThe (World Script) fun w =>
      { w with outside := { w.outside with answers := change w.outside.answers } }
    return .done
  | .sleep duration => do
    scripted.sleep duration
    return .done
  | .shutDown => do
    scripted.shutDown
    return .done
  | .hireLookout _ | .probe _ | .survey | .latest | .surveyTwice => lookoutStep step
  | .prepareCoordinator .. | .message _ | .openCounter | .send _ | .sendFor .. | .leaveCounter
  | .isCounterClosed => counterStep step
  | .openPage | .page _ => pageStep step
  | .openSendDesk _ | .submit _ | .requestFunds _ => sendDeskStep step
  | .startPoller .. | .panel | .refresh | .stopPoller | .awaitChange _ => pollerStep step
  | .web name request => having Session.counter fun index => do
    let answer : Play Script Web.Response := Web.respond name (scripted.line index) request
    return .response (← answer)

/-- The calls of the ledger since they were last taken. -/
def takeCalls : Scene (List Call) :=
  modifyGetThe (World Script) fun w =>
    (w.outside.calls, { w with outside := { w.outside with calls := [] } })

end Session
end WalletEngine.Rehearsal
