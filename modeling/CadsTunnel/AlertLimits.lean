import CadsTunnel.AlertStore
import CadsTunnel.TrailingWindow

/-! The dead-man alerts: a loop that asks the edge for every tunnel with an alert, and tells
the webhook when one goes down or comes back; an owner can send a test. What goes out is
limited for each owner by the log of the deliveries, which forgets: with the alert it
belongs to, and beyond the newest rows of a tunnel. -/
namespace CadsTunnel.AlertLimits
open OrderedMap Sql TunnelStore AlertStore TrailingWindow
open Std (ExtTreeMap)

def maxDeliveriesPerHour : Int := 20

def loopAttempts : Nat := 3

def rateLimitDetail : String := "rate limit: at most 20 deliveries per hour per account"

inductive AlertEvent where
  | down
  | up
  | test
  deriving DecidableEq

def AlertEvent.wire : AlertEvent → String
  | .down => "tunnel.down"
  | .up => "tunnel.up"
  | .test => "tunnel.test"

def nextTransition (state : AlertState) (up : Bool) (since now thresholdSecs : Int) : Option AlertEvent :=
  match up, state with
  | true, .down => some .up
  | true, _ => none
  | false, .down => none
  | false, _ => if saturatingAddI64 now (-since) ≥ thresholdSecs then some .down else none

/- An alert with its tunnel. -/
structure AlertView where
  tunnelId : String
  alert : AlertRow
  name : String
  routingToken : String

def viewOf (s : Tables) (e : String × AlertRow) : Option AlertView :=
  (s.tunnels[e.1]?.filter (fun t => t.subject = e.2.subject)).map (fun t => ⟨e.1,e.2,t.name,t.routingToken⟩)

def alertRowFor (subject tunnelId : String) : Work (Option AlertView) :=
  select (fun s => (s.alerts[tunnelId]?.filter (fun a => a.subject = subject)).bind (fun a => viewOf s (tunnelId,a)))

def enabledAlerts (s : Tables) : List AlertView := (s.alerts.toList.filter (fun e => e.2.enabled)).filterMap (viewOf s)

def allEnabledAlerts : Work (List AlertView) := select enabledAlerts

/- Both outcomes of a delivery count, a refusal does not. -/
def counts (subject : String) (since : Int) (s : Tables) (_ : Nat) (d : DeliveryRow) : Bool :=
  s.alerts[d.tunnelId]?.any (fun a => a.subject = subject) && d.ts ≥ since && d.status ≠ .skipped

def deliveriesSince (subject : String) (since : Int) (s : Tables) : Nat := (s.alertDeliveries.filter (counts subject since s)).size

def deliveryCountSince (subject : String) (since : Int) : Work Int := select (fun s => deliveriesSince subject since s)

def lastDelivery (subject tunnelId : String) (s : Tables) : Option DeliveryRow :=
  if s.alerts[tunnelId]?.any (fun a => a.subject = subject) then (deliveriesOf tunnelId s.alertDeliveries).head?.map Prod.snd else none

def deliveriesFor (subject tunnelId : String) : Work (Option DeliveryRow) := select (lastDelivery subject tunnelId)

structure DeliveryOutcome where
  ok : Bool
  detail : String

def DeliveryOutcome.status (o : DeliveryOutcome) : DeliveryStatus := if o.ok then .ok else .failed

/- What is posted to a webhook, and how often at most. -/
structure Sent where
  subject : String
  webhookUrl : String
  secretHex : String
  event : String
  tunnelId : String
  name : String
  since : Int
  thresholdSecs : Int
  attempts : Nat
  ts : Int

def Sent.of (event : AlertEvent) (row : AlertView) (since : Int) (attempts : Nat) (now : Int) : Sent :=
  ⟨row.alert.subject,row.alert.webhookUrl,row.alert.secretHex,event.wire,row.tunnelId,row.name,since,row.alert.thresholdSecs,attempts,now⟩

def rateLimited (subject : String) (now : Int) : Work Bool := do
  let n ← attempt (deliveryCountSince subject (now - 3600))
  match n with
  | .ok n => pure (n ≥ maxDeliveriesPerHour)
  | .error _ => pure true

def isSkipped (event : AlertEvent) (last : Option DeliveryRow) : Bool := last.any (fun d => d.status = .skipped && d.event = event.wire)

def recordSkippedOnce (row : AlertView) (event : AlertEvent) (now : Int) : Work Unit := do
  let last ← attempt (deliveriesFor row.alert.subject row.tunnelId)
  let known := match last with
    | .ok last => isSkipped event last
    | .error _ => false
  if known then pure ()
  else
    let _ ← attempt (recordDelivery row.tunnelId now event.wire .skipped (some rateLimitDetail))
    pure ()

def AlertView.reference (row : AlertView) (up : Bool) (now : Int) : Int := if up then now else row.alert.lastSeenHint.getD row.alert.stateSince

def AlertView.transition (row : AlertView) (up : Bool) (now : Int) : Option AlertEvent :=
  nextTransition row.alert.state up (row.reference up now) now row.alert.thresholdSecs

def stateAfter (event : AlertEvent) (state : AlertState) : AlertState :=
  match event with
  | .down => .down
  | .up => .up
  | .test => state

/- The arm of `evaluateOne` that tells of an event. -/
def tell (row : AlertView) (event : AlertEvent) (since : Int) (outcome : DeliveryOutcome) (now : Int) : Work (Option Sent) := do
  let limited ← rateLimited row.alert.subject now
  if limited then
    recordSkippedOnce row event now
    pure none
  else
    let _ ← attempt (recordDelivery row.tunnelId now event.wire outcome.status (some outcome.detail))
    let _ ← attempt (setAlertState row.tunnelId (stateAfter event row.alert.state) since)
    pure (some (.of event row since loopAttempts now))

def evaluateOne (row : AlertView) (up : Bool) (outcome : DeliveryOutcome) (now : Int) : Work (Option Sent) := do
  if up then
    let _ ← attempt (touchAlertSeen row.tunnelId now)
  match row.transition up now with
  | none =>
    if up && row.alert.state ≠ .up then
      let _ ← attempt (setAlertState row.tunnelId .up now)
    pure none
  | some event => tell row event (if event = .down then row.reference up now else now) outcome now

/- What the edge says of a tunnel by its token, if it can be asked. -/
def evaluateAll (probe : String → Option Bool) (outcome : String → DeliveryOutcome) (now : Int) : List AlertView → Work (List Sent)
  | [] => pure []
  | row :: rest =>
    match probe row.routingToken with
    | none => evaluateAll probe outcome now rest
    | some up => do
      let first ← evaluateOne row up (outcome row.tunnelId) now
      let later ← evaluateAll probe outcome now rest
      pure (first.toList ++ later)

def tick (probe : Option (String → Option Bool)) (outcome : String → DeliveryOutcome) (now : Int) : Work (List Sent) :=
  match probe with
  | none => pure []
  | some probe => do
    let rows ← allEnabledAlerts
    evaluateAll probe outcome now rows

inductive TestAnswer where
  | unknown
  | limited
  | delivered (sent : Sent)

def testAlert (subject tunnelId : String) (outcome : DeliveryOutcome) (now : Int) : Work TestAnswer := do
  let row ← alertRowFor subject tunnelId
  match row with
  | none => pure .unknown
  | some row =>
    let limited ← rateLimited subject now
    if limited then
      recordSkippedOnce row .test now
      pure .limited
    else
      recordDelivery tunnelId now AlertEvent.test.wire outcome.status (some outcome.detail)
      pure (.delivered (.of .test row row.alert.stateSince 1 now))

inductive Op where
  | tick (probe : Option (String → Option Bool)) (outcome : String → DeliveryOutcome)
  | testAlert (subject tunnelId : String) (outcome : DeliveryOutcome)
  | setAlert (subject tunnelId webhookUrl : String) (thresholdSecs : Int) (secretHex : String)
  | deleteAlert (subject tunnelId : String)

inductive Answer where
  | ticked (sent : List Sent)
  | tested (answer : TestAnswer)
  | set (outcome : Option AlertUpsert)
  | deleted (done : Bool)

structure Call where
  op : Op
  now : Int

def Op.work (now : Int) : Op → Work Answer
  | .tick probe outcome => do
    let sent ← AlertLimits.tick probe outcome now
    pure (.ticked sent)
  | .testAlert subject tunnelId outcome => do
    let answer ← AlertLimits.testAlert subject tunnelId outcome now
    pure (.tested answer)
  | .setAlert subject tunnelId webhookUrl thresholdSecs secretHex => do
    let outcome ← upsertAlert subject tunnelId webhookUrl thresholdSecs now secretHex
    pure (.set outcome)
  | .deleteAlert subject tunnelId => do
    let done ← AlertStore.deleteAlert subject tunnelId
    pure (.deleted done)

/- The statements all succeed. -/
def step (s : Tables) (call : Call) : Except SqlError Answer × Tables := perform (call.op.work call.now) s []

def Answer.sent : Answer → List Sent
  | .ticked sent => sent
  | .tested (.delivered sent) => [sent]
  | _ => []

def sentBy (s : Tables) (call : Call) : List Sent :=
  match (step s call).1 with
  | .ok answer => answer.sent
  | .error _ => []

/- What has gone out to the webhooks, from tunnels without alerts on. -/
def deliveries (tunnels : BTreeMap String TunnelRow) (calls : List Call) : List Sent := Machine.log step sentBy { tunnels } calls

/- The log of the tunnel is full, and its oldest row is of a delivery in the hour. -/
def crowds (tunnelId : String) (now : Int) (s : Tables) : Bool :=
  ((deliveriesOf tunnelId s.alertDeliveries).drop (alertDeliveryKeep - 1)).any (fun e => e.2.status ≠ .skipped && e.2.ts ≥ now - 3600)

/- Whether telling of an event leaves a row in the log: unless it is refused like the last one. -/
def records (row : AlertView) (event : AlertEvent) (now : Int) (s : Tables) : Bool :=
  !(decide ((deliveriesSince row.alert.subject (now - 3600) s : Int) ≥ maxDeliveriesPerHour) && isSkipped event (lastDelivery row.alert.subject row.tunnelId s))

def spares (row : AlertView) (event : AlertEvent) (now : Int) (s : Tables) : Bool := !(records row event now s && crowds row.tunnelId now s)

def sparesAll (probe : String → Option Bool) (outcome : String → DeliveryOutcome) (now : Int) : List AlertView → Tables → Bool
  | [], _ => true
  | row :: rest, s =>
    match probe row.routingToken with
    | none => sparesAll probe outcome now rest s
    | some up =>
      ((row.transition up now).all (fun event => spares row event now s)) &&
        sparesAll probe outcome now rest (perform (evaluateOne row up (outcome row.tunnelId) now) s []).2

/- No delivery of the last hour goes from the log: neither with its alert nor for a newer row. -/
def keepsLog (s : Tables) (call : Call) : Bool :=
  match call.op with
  | .tick none _ => true
  | .tick (some probe) outcome => sparesAll probe outcome call.now (enabledAlerts s) s
  | .testAlert subject tunnelId _ =>
    ((s.alerts[tunnelId]?.filter (fun a => a.subject = subject)).bind (fun a => viewOf s (tunnelId,a))).all (fun row => spares row .test call.now s)
  | .setAlert .. => true
  | .deleteAlert subject tunnelId =>
    !(s.alerts[tunnelId]?.any (fun a => a.subject = subject) &&
      hasRow (fun _ d => d.tunnelId = tunnelId && d.status ≠ .skipped && d.ts ≥ call.now - 3600) s.alertDeliveries)

def alertOwner (tunnelId : String) (s : Tables) : Option String := s.alerts[tunnelId]?.map AlertRow.subject

def noted (ts : Int) (status : DeliveryStatus) (a : AlertRow) : AlertRow :=
  { a with lastDeliveryAt := some ts, lastDeliveryStatus := some status, failures := failuresAfter status a.failures }

/- The tables with one more delivery. -/
def Tables.recorded (tunnelId : String) (ts : Int) (event : String) (status : DeliveryStatus) (detail : Option String) (s : Tables) : Tables :=
  let log := s.alertDeliveries.insert (s.deliverySeq + 1) ⟨tunnelId,ts,event,status,detail⟩
  { s with
    alertDeliveries := (deleteWhere (crowdedOut tunnelId log) log).2
    deliverySeq := s.deliverySeq + 1
    alerts := (updateWhere (fun k _ => k = tunnelId) (noted ts status) s.alerts).2 }

def Numbered (s : Tables) : Prop := ∀ (id : Nat) (d : DeliveryRow), s.alertDeliveries[id]? = some d → id ≤ s.deliverySeq

section Log
variable {s m : Tables} {now : Int} {tunnelId event : String} {status : DeliveryStatus} {detail : Option String}

theorem recordYields (tunnelId : String) (ts : Int) (event : String) (status : DeliveryStatus) (detail : Option String) (s : Tables) :
    Yields (recordDelivery tunnelId ts event status detail) s () (Tables.recorded tunnelId ts event status detail s) := rfl

theorem ownerAny (tunnelId subject : String) (s : Tables) :
    s.alerts[tunnelId]?.any (fun a => a.subject = subject) = decide (alertOwner tunnelId s = some subject) := by
  rw [alertOwner]
  cases s.alerts[tunnelId]? <;> simp

theorem ownerUpdated {p : String → AlertRow → Bool} {change : AlertRow → AlertRow} (keeps : ∀ a, (change a).subject = a.subject)
    (same : m.alerts = (updateWhere p change s.alerts).2) (tunnelId : String) : alertOwner tunnelId m = alertOwner tunnelId s := by
  rw [alertOwner, alertOwner, same, lookupUpdated]
  cases s.alerts[tunnelId]? with
  | none => rfl
  | some a =>
    rw [Option.map_some, Option.map_some, Option.map_some]
    split
    · rw [keeps]
    · rfl

theorem ownerRecorded (s : Tables) (ts : Int) (other : String) :
    alertOwner other (Tables.recorded tunnelId ts event status detail s) = alertOwner other s :=
  @ownerUpdated _ _ _ (noted ts status) (fun _ => rfl) rfl other

theorem countsIff {subject : String} {since : Int} {id : Nat} {d : DeliveryRow} :
    counts subject since s id d ↔ alertOwner d.tunnelId s = some subject ∧ since ≤ d.ts ∧ d.status ≠ .skipped := by
  rw [counts, ownerAny]
  simp [and_assoc]

theorem freshNumber (numbered : Numbered s) : s.alertDeliveries[s.deliverySeq + 1]? = none := by
  cases found : s.alertDeliveries[s.deliverySeq + 1]? with
  | none => rfl
  | some d => exact absurd (numbered _ d found) (by omega)

/- The newest delivery stands in front of the others. -/
theorem deliveriesNext (numbered : Numbered s) (ts : Int) :
    deliveriesOf tunnelId (s.alertDeliveries.insert (s.deliverySeq + 1) ⟨tunnelId,ts,event,status,detail⟩) =
      (s.deliverySeq + 1,⟨tunnelId,ts,event,status,detail⟩) :: deliveriesOf tunnelId s.alertDeliveries := by
  have last := insertLast (m := s.alertDeliveries) (k := s.deliverySeq + 1) (fun a present => by
    obtain ⟨row,found⟩ := Option.isSome_iff_exists.mp (ExtTreeMap.mem_iff_isSome_getElem?.mp present)
    have below := numbered a row found
    exact Nat.compare_eq_lt.mpr (by omega)) ⟨tunnelId,ts,event,status,detail⟩
  rw [deliveriesOf, last, List.filter_append, List.filter_singleton]
  simp [deliveriesOf]

/- A delivery of the last hour that a tunnel with room for one more keeps. -/
theorem keptRecorded (numbered : Numbered s) (spared : crowds tunnelId now s = false) {id : Nat} {d : DeliveryRow}
    (found : s.alertDeliveries[id]? = some d) (out : d.status ≠ .skipped) (young : now - 3600 ≤ d.ts) (ts : Int) :
    (Tables.recorded tunnelId ts event status detail s).alertDeliveries[id]? = some d := by
  have other : id ≠ s.deliverySeq + 1 := fun same => by
    have below := numbered id d found
    omega
  rw [Tables.recorded, lookupDeleted, lookupInsert, if_neg other, found, Option.filter_some, if_pos]
  rw [Bool.not_eq_true', crowdedOut, Bool.and_eq_false_iff]
  by_cases mine : d.tunnelId = tunnelId
  case neg => exact .inl (decide_eq_false mine)
  case pos =>
    refine .inr ?_
    rw [Bool.not_eq_false', List.contains_iff_mem, deliveriesNext numbered ts, alertDeliveryKeep, List.take_succ_cons]
    refine List.mem_map.mpr ⟨(id,d),List.mem_cons_of_mem _ ?_,rfl⟩
    have listed : (id,d) ∈ deliveriesOf tunnelId s.alertDeliveries := by
      rw [deliveriesOf, List.mem_reverse, List.mem_filter]
      exact ⟨ExtTreeMap.mem_toList_iff_getElem?_eq_some.mpr found,decide_eq_true mine⟩
    rw [← List.take_append_drop (alertDeliveryKeep - 1) (deliveriesOf tunnelId s.alertDeliveries), List.mem_append] at listed
    obtain front | back := listed
    · exact front
    · rw [crowds, List.any_eq_false] at spared
      refine absurd ?_ (spared (id,d) back)
      simp [out, young]

theorem newRecorded (numbered : Numbered s) (ts : Int) :
    (Tables.recorded tunnelId ts event status detail s).alertDeliveries[s.deliverySeq + 1]? = some ⟨tunnelId,ts,event,status,detail⟩ := by
  rw [Tables.recorded, lookupDeleted, lookupInsert, if_pos rfl, Option.filter_some, if_pos]
  rw [Bool.not_eq_true', crowdedOut, Bool.and_eq_false_iff]
  refine .inr ?_
  rw [Bool.not_eq_false', List.contains_iff_mem, deliveriesNext numbered ts, alertDeliveryKeep, List.take_succ_cons]
  exact List.mem_map.mpr ⟨_,List.mem_cons_self,rfl⟩

theorem numberedRecorded (numbered : Numbered s) (ts : Int) : Numbered (Tables.recorded tunnelId ts event status detail s) := by
  intro id d here
  rw [Tables.recorded, lookupDeleted, Option.filter_eq_some_iff, lookupInsert] at here
  obtain ⟨here,_⟩ := here
  show id ≤ s.deliverySeq + 1
  split at here
  case isTrue same => omega
  case isFalse =>
    have below := numbered id d here
    omega

/- The count of the last hour takes up a delivery that is recorded. -/
theorem countRecorded (numbered : Numbered s) (spared : crowds tunnelId now s = false) (subject : String) {since : Int}
    (window : now - 3600 ≤ since) (ts : Int) :
    deliveriesSince subject since s + (if alertOwner tunnelId s = some subject ∧ since ≤ ts ∧ status ≠ .skipped then 1 else 0) ≤
      deliveriesSince subject since (Tables.recorded tunnelId ts event status detail s) := by
  have grown := sizeFilterInsert (counts subject since s) s.alertDeliveries (s.deliverySeq + 1) ⟨tunnelId,ts,event,status,detail⟩
  rw [eraseAbsent (freshNumber numbered)] at grown
  simp only [countsIff] at grown
  rw [deliveriesSince, ← grown, deliveriesSince]
  refine sizeLe ?_
  intro id present
  rw [ExtTreeMap.getElem?_filter', Option.isSome_filter] at present ⊢
  obtain ⟨d,found,hit⟩ := (Option.any_eq_true _ _).mp present
  obtain ⟨owner,young,out⟩ := countsIff.mp hit
  refine (Option.any_eq_true _ _).mpr ⟨d,?_,countsIff.mpr ⟨(ownerRecorded s ts _).trans owner,young,out⟩⟩
  rw [lookupInsert] at found
  split at found
  case isTrue same =>
    cases Option.some.inj found
    rw [same]
    exact newRecorded numbered ts
  case isFalse => exact keptRecorded numbered spared found out (by omega) ts

end Log

/- How many deliveries have gone out for an owner from a time on. -/
def outgoing (subject : String) (since : Int) (log : List Sent) : Nat := countSince Sent.ts since (log.filter (fun e => e.subject = subject))

/- The log of the store has every delivery of the last hour, and no hour has had too many. -/
structure Tracked (now : Int) (s : Tables) (log : List Sent) : Prop where
  numbered : Numbered s
  covered : ∀ subject since, now - 3600 ≤ since → outgoing subject since log ≤ deliveriesSince subject since s
  bounded : ∀ subject start, countBetween Sent.ts start (start + 3600) (log.filter (fun e => e.subject = subject)) ≤ 20

/- A change that forgets no delivery and no alert. -/
structure Quiet (s m : Tables) : Prop where
  log : m.alertDeliveries = s.alertDeliveries
  seq : m.deliverySeq = s.deliverySeq
  owners : ∀ tunnelId subject, alertOwner tunnelId s = some subject → alertOwner tunnelId m = some subject

section Steps
variable {s m : Tables} {now : Int} {log : List Sent}

theorem trackedLater {later : Int} (tracked : Tracked now s log) (forward : now ≤ later) : Tracked later s log :=
  ⟨tracked.numbered,fun subject since window => tracked.covered subject since (by omega),tracked.bounded⟩

theorem trackedEmpty (now : Int) (tunnels : BTreeMap String TunnelRow) : Tracked now { tunnels } [] :=
  ⟨fun _ _ found => by simp at found,fun _ _ _ => Nat.zero_le _,fun _ _ => Nat.zero_le _⟩

theorem quietSame (s : Tables) : Quiet s s := ⟨rfl,rfl,fun _ _ owner => owner⟩

theorem trackedQuiet (tracked : Tracked now s log) (quiet : Quiet s m) : Tracked now m log := by
  refine ⟨?_,?_,tracked.bounded⟩
  · rw [Numbered, quiet.log, quiet.seq]
    exact tracked.numbered
  · intro subject since window
    refine (tracked.covered subject since window).trans (sizeLe ?_)
    intro id present
    rw [ExtTreeMap.getElem?_filter', Option.isSome_filter] at present ⊢
    obtain ⟨d,found,hit⟩ := (Option.any_eq_true _ _).mp present
    obtain ⟨owner,young,out⟩ := countsIff.mp hit
    exact (Option.any_eq_true _ _).mpr ⟨d,quiet.log ▸ found,countsIff.mpr ⟨quiet.owners _ _ owner,young,out⟩⟩

theorem outgoingOne (subject : String) (since : Int) (e : Sent) :
    outgoing subject since [e] = if e.subject = subject ∧ since ≤ e.ts then 1 else 0 := by
  rw [outgoing, List.filter_singleton]
  by_cases mine : e.subject = subject
  · simp [mine, countSince]
  · simp [mine, countSince]

/- A refusal is recorded. -/
theorem trackedRefused {tunnelId event : String} {detail : Option String} (tracked : Tracked now s log)
    (spared : crowds tunnelId now s = false) : Tracked now (Tables.recorded tunnelId now event .skipped detail s) log := by
  refine ⟨numberedRecorded tracked.numbered now,?_,tracked.bounded⟩
  intro subject since window
  have grown := @countRecorded s now tunnelId event .skipped detail tracked.numbered spared subject since window now
  have before := tracked.covered subject since window
  omega

/- A delivery goes out and is recorded. -/
theorem trackedSent {tunnelId event : String} {status : DeliveryStatus} {detail : Option String} {e : Sent} (tracked : Tracked now s log)
    (spared : crowds tunnelId now s = false) (owner : alertOwner tunnelId s = some e.subject) (out : status ≠ .skipped) (time : e.ts = now)
    (room : deliveriesSince e.subject (now - 3600) s < 20) :
    Tracked now (Tables.recorded tunnelId now event status detail s) (log ++ [e]) := by
  refine ⟨numberedRecorded tracked.numbered now,?_,?_⟩
  · intro subject since window
    have grown := @countRecorded s now tunnelId event status detail tracked.numbered spared subject since window now
    have before := tracked.covered subject since window
    rw [outgoing, List.filter_append, countAppend, ← outgoing, ← outgoing, outgoingOne]
    split
    case isTrue mine =>
      rw [if_pos ⟨mine.1 ▸ owner,time ▸ mine.2,out⟩] at grown
      omega
    case isFalse => omega
  · intro subject start
    rw [List.filter_append]
    by_cases mine : e.subject = subject
    · rw [List.filter_singleton, decide_eq_true mine]
      refine betweenAppend (tracked.bounded subject) ?_ start
      have counted := tracked.covered subject (now - 3600) le_rfl
      rw [time]
      subst mine
      exact counted.trans_lt room
    · rw [List.filter_singleton, decide_eq_false mine, cond_false, List.append_nil]
      exact tracked.bounded subject start

theorem ownerQuiet (log : m.alertDeliveries = s.alertDeliveries) (seq : m.deliverySeq = s.deliverySeq)
    (owners : ∀ tunnelId, alertOwner tunnelId m = alertOwner tunnelId s) : Quiet s m := ⟨log,seq,fun tunnelId _ owner => (owners tunnelId).trans owner⟩

theorem limitedYields (subject : String) (now : Int) (s : Tables) :
    Yields (rateLimited subject now) s (decide ((deliveriesSince subject (now - 3600) s : Int) ≥ maxDeliveriesPerHour)) s := rfl

theorem skippedYields (row : AlertView) (event : AlertEvent) (now : Int) (s : Tables) :
    Yields (recordSkippedOnce row event now) s ()
      (if isSkipped event (lastDelivery row.alert.subject row.tunnelId s) then s
        else Tables.recorded row.tunnelId now event.wire .skipped (some rateLimitDetail) s) := by
  have read : Yields (attempt (deliveriesFor row.alert.subject row.tunnelId)) s (.ok (lastDelivery row.alert.subject row.tunnelId s)) s := rfl
  refine yieldsBind read ?_
  dsimp only
  split
  · rfl
  · rfl

theorem notSkipped (outcome : DeliveryOutcome) : outcome.status ≠ .skipped := by
  unfold DeliveryOutcome.status
  split <;> decide

/- A change of what is observed of a tunnel. -/
def Tables.observed (tunnelId : String) (change : AlertRow → AlertRow) (s : Tables) : Tables :=
  { s with alerts := (updateWhere (fun k _ => k = tunnelId) change s.alerts).2 }

theorem ownerObserved (tunnelId : String) {change : AlertRow → AlertRow} (keeps : ∀ a, (change a).subject = a.subject) (s : Tables) (other : String) :
    alertOwner other (Tables.observed tunnelId change s) = alertOwner other s := ownerUpdated keeps rfl other

theorem setStateYields (tunnelId : String) (state : AlertState) (since : Int) (s : Tables) :
    Yields (setAlertState tunnelId state since) s () (Tables.observed tunnelId (fun a => { a with state, stateSince := since }) s) := rfl

theorem touchYields (tunnelId : String) (seenAt : Int) (s : Tables) :
    Yields (touchAlertSeen tunnelId seenAt) s () (Tables.observed tunnelId (fun a => { a with lastSeenHint := some seenAt }) s) := rfl

theorem sparesIff {row : AlertView} {event : AlertEvent} : spares row event now s ↔
    (deliveriesSince row.alert.subject (now - 3600) s : Int) ≥ maxDeliveriesPerHour ∧
      isSkipped event (lastDelivery row.alert.subject row.tunnelId s) ∨ crowds row.tunnelId now s = false := by
  rw [spares, records, Bool.not_eq_true', Bool.and_eq_false_iff, Bool.not_eq_false', Bool.and_eq_true, decide_eq_true_eq]

/- Who is limited is refused. -/
theorem refusedTracked {row : AlertView} {event : AlertEvent} (tracked : Tracked now s log) (spared : spares row event now s) :
    ∃ m, Yields (recordSkippedOnce row event now) s () m ∧ Tracked now m log ∧ ∀ tunnelId, alertOwner tunnelId m = alertOwner tunnelId s := by
  have refused := skippedYields row event now s
  split at refused
  case isTrue => exact ⟨s,refused,tracked,fun _ => rfl⟩
  case isFalse new =>
    have free : crowds row.tunnelId now s = false := (sparesIff.mp spared).resolve_left (fun both => new both.2)
    exact ⟨_,refused,trackedRefused tracked free,ownerRecorded s now⟩

/- Who is not limited is told. -/
theorem toldTracked {row : AlertView} {event : AlertEvent} {outcome : DeliveryOutcome} {since : Int} {attempts : Nat} (tracked : Tracked now s log)
    (owner : alertOwner row.tunnelId s = some row.alert.subject) (spared : spares row event now s)
    (limited : ¬(deliveriesSince row.alert.subject (now - 3600) s : Int) ≥ maxDeliveriesPerHour) :
    Tracked now (Tables.recorded row.tunnelId now event.wire outcome.status (some outcome.detail) s) (log ++ [.of event row since attempts now]) := by
  have free : crowds row.tunnelId now s = false := (sparesIff.mp spared).resolve_left (fun both => limited both.1)
  have room : deliveriesSince row.alert.subject (now - 3600) s < 20 := by
    rw [maxDeliveriesPerHour] at limited
    omega
  exact trackedSent tracked free owner (notSkipped outcome) rfl room

theorem tellTracked {row : AlertView} {event : AlertEvent} (since : Int) (outcome : DeliveryOutcome) (tracked : Tracked now s log)
    (owner : alertOwner row.tunnelId s = some row.alert.subject) (spared : spares row event now s) :
    ∃ sent m, Yields (tell row event since outcome now) s sent m ∧ Tracked now m (log ++ sent.toList) ∧
      ∀ tunnelId, alertOwner tunnelId m = alertOwner tunnelId s := by
  by_cases limited : (deliveriesSince row.alert.subject (now - 3600) s : Int) ≥ maxDeliveriesPerHour
  case pos =>
    obtain ⟨m,refused,further,kept⟩ := refusedTracked tracked spared
    refine ⟨none,m,yieldsBind (limitedYields _ now s) ?_,by rwa [Option.toList_none, List.append_nil],kept⟩
    rw [decide_eq_true limited]
    exact yieldsBind refused yieldsPure
  case neg =>
    let change := fun a : AlertRow => { a with state := stateAfter event row.alert.state, stateSince := since }
    let told := Tables.recorded row.tunnelId now event.wire outcome.status (some outcome.detail) s
    have sent := @toldTracked s now log row event outcome since loopAttempts tracked owner spared limited
    have kept := @ownerObserved row.tunnelId change (fun _ => rfl) told
    refine ⟨some (.of event row since loopAttempts now),Tables.observed row.tunnelId change told,yieldsBind (limitedYields _ now s) ?_,
      trackedQuiet sent (ownerQuiet rfl rfl kept),?_⟩
    · rw [decide_eq_false limited]
      exact yieldsBind (yieldsAttempt (recordYields _ _ _ _ _ _)) (yieldsBind (yieldsAttempt (setStateYields _ _ _ _)) yieldsPure)
    · exact fun tunnelId => (kept tunnelId).trans (ownerRecorded s now tunnelId)

/- What is observed of a tunnel does not bear on the limit. -/
theorem deliveriesObserved (owners : ∀ tunnelId, alertOwner tunnelId m = alertOwner tunnelId s) (log : m.alertDeliveries = s.alertDeliveries)
    (subject : String) (since : Int) : deliveriesSince subject since m = deliveriesSince subject since s := by
  have counted : counts subject since m = counts subject since s := by
    funext id d
    rw [counts, counts, ownerAny, ownerAny, owners]
  rw [deliveriesSince, deliveriesSince, counted, log]

theorem sparesObserved (row : AlertView) (event : AlertEvent) (now : Int) (log : m.alertDeliveries = s.alertDeliveries)
    (owners : ∀ tunnelId, alertOwner tunnelId m = alertOwner tunnelId s) : spares row event now m = spares row event now s := by
  rw [spares, spares, records, records, deliveriesObserved owners log, lastDelivery, lastDelivery, ownerAny, ownerAny, owners, crowds, crowds, log]

theorem evaluateTracked {row : AlertView} (up : Bool) (outcome : DeliveryOutcome) (tracked : Tracked now s log)
    (owner : alertOwner row.tunnelId s = some row.alert.subject) (spared : (row.transition up now).all (fun event => spares row event now s)) :
    ∃ sent m, Yields (evaluateOne row up outcome now) s sent m ∧ Tracked now m (log ++ sent.toList) ∧
      ∀ tunnelId, alertOwner tunnelId m = alertOwner tunnelId s := by
  have decided (seen : Tables) (same : seen.alertDeliveries = s.alertDeliveries) (seq : seen.deliverySeq = s.deliverySeq)
      (owners : ∀ tunnelId, alertOwner tunnelId seen = alertOwner tunnelId s) :
      ∃ sent m, Yields (match row.transition up now with
        | none => do
          if up && row.alert.state ≠ .up then
            let _ ← attempt (setAlertState row.tunnelId .up now)
          pure none
        | some event => tell row event (if event = .down then row.reference up now else now) outcome now) seen sent m ∧
        Tracked now m (log ++ sent.toList) ∧ ∀ tunnelId, alertOwner tunnelId m = alertOwner tunnelId s := by
    have carried := trackedQuiet tracked (ownerQuiet same seq owners)
    cases turned : row.transition up now with
    | none =>
      dsimp only
      split
      case isTrue =>
        have kept := @ownerObserved row.tunnelId (fun a => { a with state := .up, stateSince := now }) (fun _ => rfl) seen
        refine ⟨none,_,yieldsBind (yieldsAttempt (setStateYields _ _ _ _)) yieldsPure,?_,fun tunnelId => (kept tunnelId).trans (owners tunnelId)⟩
        rw [Option.toList_none, List.append_nil]
        exact trackedQuiet carried (ownerQuiet rfl rfl kept)
      case isFalse =>
        refine ⟨none,seen,yieldsPure,?_,owners⟩
        rwa [Option.toList_none, List.append_nil]
    | some event =>
      rw [turned, Option.all_some, ← sparesObserved row event now same owners] at spared
      obtain ⟨sent,m,yields,further,kept⟩ := tellTracked _ outcome carried ((owners _).trans owner) spared
      exact ⟨sent,m,yields,further,fun tunnelId => (kept tunnelId).trans (owners tunnelId)⟩
  unfold evaluateOne
  cases up with
  | false => exact decided s rfl rfl (fun _ => rfl)
  | true =>
    have kept := @ownerObserved row.tunnelId (fun a => { a with lastSeenHint := some now }) (fun _ => rfl) s
    obtain ⟨sent,m,yields,further⟩ := decided (Tables.observed row.tunnelId (fun a => { a with lastSeenHint := some now }) s) rfl rfl kept
    exact ⟨sent,m,yieldsBind (yieldsAttempt (touchYields _ _ _)) yields,further⟩

theorem evaluateAllTracked {probe : String → Option Bool} {outcome : String → DeliveryOutcome} {rows : List AlertView} (tracked : Tracked now s log)
    (owners : ∀ row ∈ rows, alertOwner row.tunnelId s = some row.alert.subject) (spared : sparesAll probe outcome now rows s) :
    ∃ sent m, Yields (evaluateAll probe outcome now rows) s sent m ∧ Tracked now m (log ++ sent) := by
  induction rows generalizing s log with
  | nil => exact ⟨[],s,yieldsPure,by rwa [List.append_nil]⟩
  | cons row rest ih =>
    rw [sparesAll] at spared
    rw [evaluateAll]
    have later : ∀ other ∈ rest, alertOwner other.tunnelId s = some other.alert.subject := fun other mem => owners other (List.mem_cons_of_mem _ mem)
    cases edge : probe row.routingToken with
    | none =>
      rw [edge] at spared
      exact ih tracked later spared
    | some up =>
      rw [edge, Bool.and_eq_true] at spared
      obtain ⟨first,m,yields,further,kept⟩ := evaluateTracked up (outcome row.tunnelId) tracked (owners row List.mem_cons_self) spared.1
      rw [yieldsPerform yields] at spared
      obtain ⟨more,n,ran,last⟩ := ih further (fun other mem => (kept _).trans (later other mem)) spared.2
      refine ⟨first.toList ++ more,n,yieldsBind yields (yieldsBind ran yieldsPure),?_⟩
      rwa [← List.append_assoc]

theorem viewOwner {e : String × AlertRow} {row : AlertView} (found : s.alerts[e.1]? = some e.2) (seen : viewOf s e = some row) :
    row.tunnelId = e.1 ∧ row.alert = e.2 ∧ alertOwner row.tunnelId s = some row.alert.subject := by
  obtain ⟨_,_,rfl⟩ := Option.map_eq_some_iff.mp seen
  exact ⟨rfl,rfl,by rw [alertOwner, found, Option.map_some]⟩

theorem enabledOwner {row : AlertView} (listed : row ∈ enabledAlerts s) : alertOwner row.tunnelId s = some row.alert.subject := by
  obtain ⟨e,mem,seen⟩ := List.mem_filterMap.mp listed
  have found := ExtTreeMap.mem_toList_iff_getElem?_eq_some.mp (List.mem_filter.mp mem).1
  exact (viewOwner found seen).2.2

theorem testTracked {subject tunnelId : String} (outcome : DeliveryOutcome) (tracked : Tracked now s log)
    (spared : ((s.alerts[tunnelId]?.filter (fun a => a.subject = subject)).bind (fun a => viewOf s (tunnelId,a))).all
      (fun row => spares row .test now s)) :
    ∃ answer m, Yields (testAlert subject tunnelId outcome now) s answer m ∧ Tracked now m (log ++ (Answer.tested answer).sent) := by
  have read : Yields (alertRowFor subject tunnelId) s
    ((s.alerts[tunnelId]?.filter (fun a => a.subject = subject)).bind (fun a => viewOf s (tunnelId,a))) s := rfl
  cases known : (s.alerts[tunnelId]?.filter (fun a => a.subject = subject)).bind (fun a => viewOf s (tunnelId,a)) with
  | none =>
    rw [known] at read
    refine ⟨.unknown,s,yieldsBind read yieldsPure,?_⟩
    show Tracked now s (log ++ [])
    rwa [List.append_nil]
  | some row =>
    rw [known] at read spared
    rw [Option.all_some] at spared
    obtain ⟨a,mine,seen⟩ := Option.bind_eq_some_iff.mp known
    obtain ⟨found,same⟩ := Option.filter_eq_some_iff.mp mine
    obtain ⟨rfl,rfl,owner⟩ := viewOwner (e := (tunnelId,a)) found seen
    obtain rfl := of_decide_eq_true same
    by_cases limited : (deliveriesSince row.alert.subject (now - 3600) s : Int) ≥ maxDeliveriesPerHour
    case pos =>
      obtain ⟨m,refused,further,_⟩ := refusedTracked tracked spared
      refine ⟨.limited,m,yieldsBind read (yieldsBind (limitedYields _ now s) ?_),?_⟩
      · rw [decide_eq_true limited]
        exact yieldsBind refused yieldsPure
      · show Tracked now m (log ++ [])
        rwa [List.append_nil]
    case neg =>
      have sent := @toldTracked s now log row .test outcome row.alert.stateSince 1 tracked owner spared limited
      refine ⟨.delivered (.of .test row row.alert.stateSince 1 now),_,yieldsBind read (yieldsBind (limitedYields _ now s) ?_),sent⟩
      rw [decide_eq_false limited]
      exact yieldsBind (recordYields _ _ _ _ _ _) yieldsPure

theorem ownerInserted {tunnelId : String} {row : AlertRow} (absent : s.alerts[tunnelId]? = none) (other subject : String)
    (owner : alertOwner other s = some subject) : alertOwner other { s with alerts := s.alerts.insert tunnelId row } = some subject := by
  rw [alertOwner] at owner ⊢
  dsimp only
  rw [lookupInsert, if_neg]
  · exact owner
  · rintro rfl
    rw [absent] at owner
    contradiction

/- Setting an alert forgets nothing. -/
theorem setQuiet (subject tunnelId webhookUrl : String) (thresholdSecs now : Int) (secretHex : String) :
    Ends (upsertAlert subject tunnelId webhookUrl thresholdSecs now secretHex) s (fun _ m => Quiet s m) := by
  unfold upsertAlert
  refine endsTransaction (quietSame s) (endsSelect (quietSame s) ?_)
  split
  case isTrue => exact endsPure (quietSame s)
  case isFalse =>
    refine endsSelect (quietSame s) ?_
    split
    case h_1 =>
      refine endsExecute (quietSame s) (endsPure (ownerQuiet rfl rfl ?_))
      intro other
      refine ownerUpdated ?_ rfl other
      exact fun _ => rfl
    case h_2 =>
      refine endsInsert (fun _ => quietSame s) ?_
      intro absent
      exact endsPure ⟨rfl,rfl,ownerInserted absent⟩

/- Deleting one forgets its own deliveries. -/
theorem deleteForgets (subject tunnelId : String) : Ends (deleteAlert subject tunnelId) s (fun _ m =>
    m = s ∨ s.alerts[tunnelId]?.any (fun a => a.subject = subject) ∧
      m = { s with
        alerts := (deleteWhere (fun k a => k = tunnelId && a.subject = subject) s.alerts).2
        alertDeliveries := (deleteWhere (fun _ d => d.tunnelId = tunnelId) s.alertDeliveries).2 }) := by
  unfold deleteAlert
  refine endsTransaction (.inl rfl) (endsExecute (.inl rfl) ?_)
  have touched : (deleteWhere (fun k (a : AlertRow) => k = tunnelId && a.subject = subject) s.alerts).1 =
      if (s.alerts[tunnelId]?.filter (fun a => a.subject = subject)).isSome then 1 else 0 := touchedOne tunnelId _ _
  rw [Option.isSome_filter] at touched
  dsimp only
  split
  case isTrue some' =>
    refine endsExecute (.inl rfl) (endsPure (.inr ⟨?_,rfl⟩))
    rw [touched] at some'
    by_contra missing
    rw [if_neg missing] at some'
    exact absurd some' (Nat.lt_irrefl 0)
  case isFalse none' =>
    refine endsPure (.inl ?_)
    rw [touched] at none'
    have missing : ¬s.alerts[tunnelId]?.any (fun a => a.subject = subject) = true := fun mine => none' (by rw [if_pos mine]; exact Nat.one_pos)
    rw [deletedRow, if_neg missing]

theorem trackedDeleted {subject tunnelId : String} (tracked : Tracked now s log)
    (spared : hasRow (fun _ (d : DeliveryRow) => d.tunnelId = tunnelId && d.status ≠ .skipped && d.ts ≥ now - 3600) s.alertDeliveries = false) :
    Tracked now { s with
        alerts := (deleteWhere (fun k a => k = tunnelId && a.subject = subject) s.alerts).2
        alertDeliveries := (deleteWhere (fun _ d => d.tunnelId = tunnelId) s.alertDeliveries).2 } log := by
  refine ⟨?_,?_,tracked.bounded⟩
  · intro id d here
    rw [lookupDeleted, Option.filter_eq_some_iff] at here
    exact tracked.numbered id d here.1
  · intro subject' since window
    refine (tracked.covered subject' since window).trans (sizeLe ?_)
    intro id present
    rw [ExtTreeMap.getElem?_filter', Option.isSome_filter] at present ⊢
    obtain ⟨d,found,hit⟩ := (Option.any_eq_true _ _).mp present
    obtain ⟨owner,young,out⟩ := countsIff.mp hit
    have other : d.tunnelId ≠ tunnelId := by
      intro mine
      have row : hasRow (fun _ (d : DeliveryRow) => d.tunnelId = tunnelId && d.status ≠ .skipped && d.ts ≥ now - 3600) s.alertDeliveries = true :=
        hasRowIff.mpr ⟨id,d,found,by simp [mine, out]; omega⟩
      rw [row] at spared
      contradiction
    refine (Option.any_eq_true _ _).mpr ⟨d,?_,countsIff.mpr ⟨?_,young,out⟩⟩
    · rw [lookupDeleted, found, Option.filter_some, if_pos (by simpa using other)]
    · rw [alertOwner] at owner ⊢
      dsimp only
      rw [lookupDeleted]
      cases there : s.alerts[d.tunnelId]? with
      | none => rw [there] at owner; contradiction
      | some a =>
        rw [there] at owner
        rw [Option.filter_some, if_pos (by simp [other])]
        exact owner

theorem stepTracked {call : Call} (tracked : Tracked call.now s log) (spared : keepsLog s call) :
    Tracked call.now (step s call).2 (log ++ sentBy s call) := by
  obtain ⟨op,now⟩ := call
  unfold sentBy step
  unfold keepsLog at spared
  dsimp only at tracked spared ⊢
  cases op with
  | tick probe outcome =>
    cases probe with
    | none =>
      show Tracked now s (log ++ [])
      rwa [List.append_nil]
    | some probe =>
      have read : Yields allEnabledAlerts s (enabledAlerts s) s := rfl
      obtain ⟨sent,m,yields,further⟩ := evaluateAllTracked tracked (fun row mem => enabledOwner mem) spared
      have whole : Yields (Op.work now (.tick (some probe) outcome)) s (.ticked sent) m := yieldsBind (yieldsBind read yields) yieldsPure
      rw [yieldsPerform whole]
      exact further
  | testAlert subject tunnelId outcome =>
    obtain ⟨answer,m,yields,further⟩ := testTracked outcome tracked spared
    have whole : Yields (Op.work now (.testAlert subject tunnelId outcome)) s (.tested answer) m := yieldsBind yields yieldsPure
    rw [yieldsPerform whole]
    exact further
  | setAlert subject tunnelId webhookUrl thresholdSecs secretHex =>
    have ends : Ends (Op.work now (.setAlert subject tunnelId webhookUrl thresholdSecs secretHex)) s (fun r m =>
        Quiet s m ∧ (match r with
          | .ok answer => answer.sent
          | .error _ => []) = []) := by
      refine endsGives (endsMono (setQuiet _ _ _ _ _ _) ?_)
      rintro (_ | _) m quiet <;> exact ⟨quiet,rfl⟩
    obtain ⟨quiet,none'⟩ := ends []
    rw [none', List.append_nil]
    exact trackedQuiet tracked quiet
  | deleteAlert subject tunnelId =>
    dsimp only at spared
    have deleted : Ends (AlertStore.deleteAlert subject tunnelId) s (fun _ m => Tracked now m log) := by
      refine endsMono (deleteForgets subject tunnelId) ?_
      rintro _ m (rfl | ⟨mine,rfl⟩)
      · exact tracked
      · rw [mine, Bool.true_and, Bool.not_eq_true'] at spared
        exact trackedDeleted tracked spared
    have ends : Ends (Op.work now (.deleteAlert subject tunnelId)) s (fun r m =>
        Tracked now m log ∧ (match r with
          | .ok answer => answer.sent
          | .error _ => []) = []) := by
      refine endsGives (endsMono deleted ?_)
      rintro (_ | _) m further <;> exact ⟨further,rfl⟩
    obtain ⟨further,none'⟩ := ends []
    rw [none', List.append_nil]
    exact further

end Steps

section Runs
variable {tunnels : BTreeMap String TunnelRow}

theorem runTracked {calls : List Call} (forward : calls.Pairwise (fun a b => a.now ≤ b.now))
    (spared : Machine.along step (fun s call => keepsLog s call) { tunnels } calls) {now : Int} (later : ∀ call ∈ calls, call.now ≤ now) :
    Tracked now (Machine.run step { tunnels } calls) (deliveries tunnels calls) := by
  induction calls using List.reverseRecOn generalizing now with
  | nil => exact trackedEmpty now tunnels
  | append_singleton calls call ih =>
    obtain ⟨sorted,_,last⟩ := List.pairwise_append.mp forward
    obtain ⟨before,here⟩ := Machine.alongAppend.mp spared
    have tracked := ih sorted before (fun c mem => last c mem call (List.mem_singleton_self _))
    refine trackedLater ?_ (later call (by simp))
    rw [Machine.runNext, deliveries, Machine.logNext]
    exact stepTracked tracked here.1

theorem alertsLimited (tunnels : BTreeMap String TunnelRow) (calls : List Call) (forward : calls.Pairwise (fun a b => a.now ≤ b.now))
    (spared : Machine.along step (fun s call => keepsLog s call) { tunnels } calls) (subject : String) (start : Int) :
    (countBetween Sent.ts start (start + 3600) ((deliveries tunnels calls).filter (fun e => e.subject = subject)) : Int) ≤ maxDeliveriesPerHour := by
  have last : ∃ now, ∀ call ∈ calls, call.now ≤ now := by
    refine ⟨((calls.map Call.now).max?).getD 0,?_⟩
    intro call mem
    cases most : (calls.map Call.now).max? with
    | none => rw [List.max?_eq_none_iff, List.map_eq_nil_iff] at most; rw [most] at mem; contradiction
    | some now => exact (List.max?_eq_some_iff.mp most).2 _ (List.mem_map.mpr ⟨call,mem,rfl⟩)
  obtain ⟨now,later⟩ := last
  exact Int.ofNat_le.mpr ((runTracked forward spared later).bounded subject start)

/- A tunnel whose owner sets an alert on it. -/
def oneTunnel : BTreeMap String TunnelRow :=
  (∅ : BTreeMap String TunnelRow).insert "t" { subject := "anna", name := "web", hostname := none, createdAt := 0, routingToken := "k" }

def setCall : Call := ⟨.setAlert "anna" "t" "https://example.org/hook" 60 "00",0⟩

def testCall : Call := ⟨.testAlert "anna" "t" ⟨true,"HTTP 200 (attempt 1)"⟩,0⟩

theorem alertsLimitedTested :
    (countBetween Sent.ts 0 (0 + 3600) ((deliveries oneTunnel [setCall,testCall,testCall]).filter (fun e => e.subject = "anna")) : Int)
      ≤ maxDeliveriesPerHour := alertsLimited oneTunnel [setCall,testCall,testCall] (by decide) (by decide +kernel) "anna" 0

/- Who deletes the alert and sets it again has the whole limit anew. -/
theorem alertsUnlimited :
    let spent := setCall :: List.replicate 20 testCall
    let calls := spent ++ ⟨.deleteAlert "anna" "t",0⟩ :: spent
    calls.Pairwise (fun a b => a.now ≤ b.now) ∧
      maxDeliveriesPerHour < (countBetween Sent.ts 0 (0 + 3600) ((deliveries oneTunnel calls).filter (fun e => e.subject = "anna")) : Int) := by
  decide +kernel

end Runs
end CadsTunnel.AlertLimits
