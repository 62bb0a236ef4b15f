import CadsTunnel.TunnelStore

/-! The dead-man alerts of the tunnels as the store keeps them: one webhook for a tunnel,
what was last observed of it, and a short log of the deliveries to the webhook. -/
namespace CadsTunnel.AlertStore
open OrderedMap Sql TunnelStore
open Std (ExtTreeMap)

def alertDeliveryKeep : Nat := 50

inductive AlertUpsert where
  | created (secretHex : String)
  | updated
  deriving DecidableEq

/- The secret is the text of what the random generator gives. -/
def upsertAlert (subject tunnelId webhookUrl : String) (thresholdSecs now : Int) (secretHex : String) : Work (Option AlertUpsert) :=
  transaction (do
    let isOwned ← select (fun s => (owned tunnelId subject s).isSome)
    if !isOwned then pure (.rollback none)
    else
      let existing ← select (fun s => s.alerts[tunnelId]?.filter (fun a => a.subject = subject))
      match existing with
      | some _ =>
        execute (fun s => ((),{ s with alerts := (updateWhere (fun k a => k = tunnelId && a.subject = subject)
          (fun a => { a with webhookUrl, thresholdSecs, enabled := true, state := .unknown, stateSince := now }) s.alerts).2 }))
        pure (.commit (some .updated))
      | none =>
        statement (fun s => (insertRow tunnelId { subject, webhookUrl, secretHex, thresholdSecs, stateSince := now, createdAt := now } s.alerts).map
          (fun rows => ((),{ s with alerts := rows })))
        pure (.commit (some (.created secretHex))))

def deleteAlert (subject tunnelId : String) : Work Bool :=
  transaction (do
    let n ← execute (fun s =>
      let (n,rows) := deleteWhere (fun k a => k = tunnelId && a.subject = subject) s.alerts
      (n,{ s with alerts := rows }))
    if n > 0 then
      execute (fun s => ((),{ s with alertDeliveries := (deleteWhere (fun _ d => d.tunnelId = tunnelId) s.alertDeliveries).2 }))
    pure (.commit (n > 0)))

def setAlertState (tunnelId : String) (state : AlertState) (since : Int) : Work Unit :=
  execute (fun s => ((),{ s with alerts := (updateWhere (fun k _ => k = tunnelId) (fun a => { a with state, stateSince := since }) s.alerts).2 }))

def touchAlertSeen (tunnelId : String) (seenAt : Int) : Work Unit :=
  execute (fun s => ((),{ s with alerts := (updateWhere (fun k _ => k = tunnelId) (fun a => { a with lastSeenHint := some seenAt }) s.alerts).2 }))

/- The deliveries of a tunnel, the newest first. -/
def deliveriesOf (tunnelId : String) (log : BTreeMap Nat DeliveryRow) : List (Nat × DeliveryRow) :=
  (log.toList.filter (fun e => e.2.tunnelId = tunnelId)).reverse

/- The rows that fall out of the log of a tunnel. -/
def crowdedOut (tunnelId : String) (log : BTreeMap Nat DeliveryRow) (id : Nat) (d : DeliveryRow) : Bool :=
  d.tunnelId = tunnelId && !(((deliveriesOf tunnelId log).take alertDeliveryKeep).map Prod.fst).contains id

def failuresAfter (status : DeliveryStatus) (failures : Int) : Int :=
  match status with
  | .ok => 0
  | .failed => failures + 1
  | .skipped => failures

def recordDelivery (tunnelId : String) (ts : Int) (event : String) (status : DeliveryStatus) (detail : Option String) : Work Unit :=
  transaction (do
    execute (fun s => ((),{ s with
      alertDeliveries := s.alertDeliveries.insert (s.deliverySeq + 1) ⟨tunnelId,ts,event,status,detail⟩
      deliverySeq := s.deliverySeq + 1 }))
    execute (fun s => ((),{ s with alertDeliveries := (deleteWhere (crowdedOut tunnelId s.alertDeliveries) s.alertDeliveries).2 }))
    execute (fun s => ((),{ s with alerts := (updateWhere (fun k _ => k = tunnelId) (fun a => { a with
      lastDeliveryAt := some ts, lastDeliveryStatus := some status, failures := failuresAfter status a.failures }) s.alerts).2 }))
    pure (.commit ()))

inductive AlertOp where
  | upsert (subject tunnelId webhookUrl : String) (thresholdSecs now : Int) (secretHex : String)
  | delete (subject tunnelId : String)
  | setState (tunnelId : String) (state : AlertState) (since : Int)
  | touchSeen (tunnelId : String) (seenAt : Int)
  | recordDelivery (tunnelId : String) (ts : Int) (event : String) (status : DeliveryStatus) (detail : Option String)

inductive AlertAnswer where
  | upserted (outcome : Option AlertUpsert)
  | deleted (done : Bool)
  | written
  deriving DecidableEq

def AlertOp.work : AlertOp → Work AlertAnswer
  | .upsert subject tunnelId webhookUrl thresholdSecs now secretHex => do
    let outcome ← upsertAlert subject tunnelId webhookUrl thresholdSecs now secretHex
    pure (.upserted outcome)
  | .delete subject tunnelId => do
    let done ← deleteAlert subject tunnelId
    pure (.deleted done)
  | .setState tunnelId state since => do
    setAlertState tunnelId state since
    pure .written
  | .touchSeen tunnelId seenAt => do
    touchAlertSeen tunnelId seenAt
    pure .written
  | .recordDelivery tunnelId ts event status detail => do
    AlertStore.recordDelivery tunnelId ts event status detail
    pure .written

/- What an operation on alerts does to the alerts. -/
inductive Alerted (s : Tables) : Tables → Prop where
  | idle {log : BTreeMap Nat DeliveryRow} {seq : Nat} : Alerted s { s with alertDeliveries := log, deliverySeq := seq }
  | created {subject tunnelId : String} {tunnel : TunnelRow} {row : AlertRow} (mine : owned tunnelId subject s = some tunnel)
      (absent : s.alerts[tunnelId]? = none) (owner : row.subject = subject) : Alerted s { s with alerts := s.alerts.insert tunnelId row }
  | changed {p : String → AlertRow → Bool} {change : AlertRow → AlertRow} {log : BTreeMap Nat DeliveryRow} {seq : Nat}
      (keeps : ∀ row, (change row).subject = row.subject) :
      Alerted s { s with alerts := (updateWhere p change s.alerts).2, alertDeliveries := log, deliverySeq := seq }
  | deleted {p : String → AlertRow → Bool} {log : BTreeMap Nat DeliveryRow} :
      Alerted s { s with alerts := (deleteWhere p s.alerts).2, alertDeliveries := log }

section Calls
variable {s : Tables}

theorem upsertEnds (subject tunnelId webhookUrl : String) (thresholdSecs now : Int) (secretHex : String) :
    Ends (upsertAlert subject tunnelId webhookUrl thresholdSecs now secretHex) s (fun _ m => Alerted s m) := by
  unfold upsertAlert
  refine endsTransaction .idle (endsSelect .idle ?_)
  cases mine : owned tunnelId subject s with
  | none => exact endsPure .idle
  | some tunnel =>
    refine endsSelect .idle ?_
    split
    case h_1 => exact endsExecute .idle (endsPure (.changed (fun _ => rfl)))
    case h_2 =>
      refine endsInsert (fun _ => .idle) ?_
      intro absent
      exact endsPure (.created mine absent rfl)

theorem deleteEnds (subject tunnelId : String) : Ends (deleteAlert subject tunnelId) s (fun _ m => Alerted s m) := by
  unfold deleteAlert
  refine endsTransaction .idle (endsExecute .idle ?_)
  dsimp only
  split
  · exact endsExecute .idle (endsPure .deleted)
  · exact endsPure .deleted

theorem recordEnds (tunnelId : String) (ts : Int) (event : String) (status : DeliveryStatus) (detail : Option String) :
    Ends (recordDelivery tunnelId ts event status detail) s (fun _ m => Alerted s m) := by
  unfold recordDelivery
  refine endsTransaction .idle (endsExecute .idle (endsExecute .idle (endsExecute .idle (endsPure ?_))))
  exact .changed (fun _ => rfl)

theorem alertEnds (op : AlertOp) : Ends op.work s (fun _ m => Alerted s m) := by
  cases op with
  | upsert => exact endsGives (upsertEnds _ _ _ _ _ _)
  | delete => exact endsGives (deleteEnds _ _)
  | setState => exact endsExecute .idle (endsPure (.changed (fun _ => rfl)))
  | touchSeen => exact endsExecute .idle (endsPure (.changed (fun _ => rfl)))
  | recordDelivery => exact endsGives (recordEnds _ _ _ _ _)

end Calls
end CadsTunnel.AlertStore
