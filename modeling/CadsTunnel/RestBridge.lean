import CadsTunnel.TunnelStore

/-! The REST bridge of a tunnel: its discovery mode, the login gate in front of it and the
grant that admits the shared bridge identity. Turning the bridge on forces the gate and
turning it off drops the grant, but the setters of the gate and of the grant do not look at
the mode. -/
namespace CadsTunnel.RestBridge
open OrderedMap Sql TunnelStore
open Std (ExtTreeMap)

/- What a mode that is none is answered with; a failure of the database is handed on as its text. -/
inductive SettingError where
  | badMode (mode : String)
  | storage (e : SqlError)
  deriving DecidableEq

instance : FromSql SettingError := ⟨.storage⟩

def parseMode (mode : String) : Option BridgeMode :=
  if mode = "off" then some .off
  else if mode = "ephemeral" then some .ephemeral
  else if mode = "permanent" then some .permanent
  else none

def setRestBridgeMode (subject tunnelId mode : String) : Session Tables SettingError Bool :=
  match parseMode mode with
  | none => throw (.badMode mode)
  | some mode =>
    transaction (do
      let n ← execute (fun s =>
        let (n,rows) := updateWhere (fun k r => k = tunnelId && r.subject = subject) (fun r => { r with restBridgeMode := mode }) s.tunnels
        (n,{ s with tunnels := rows }))
      if n > 0 ∧ mode ≠ .off then
        execute (fun s => ((),{ s with tunnels := (updateWhere (fun k r => k = tunnelId && r.subject = subject)
          (fun r => { r with requireLogin := true }) s.tunnels).2 }))
      if n > 0 ∧ mode = .off then
        execute (fun s => ((),{ s with tunnels := (updateWhere (fun k r => k = tunnelId && r.subject = subject)
          (fun r => { r with bridgeGrant := none }) s.tunnels).2 }))
      pure (.commit (n > 0)))

def setRequireLogin (subject tunnelId : String) (enabled : Bool) : Work Bool :=
  updateOwned subject tunnelId (fun r => { r with requireLogin := enabled })

def setBridgeGrant (subject tunnelId grantHex : String) : Work Bool :=
  updateOwned subject tunnelId (fun r => { r with bridgeGrant := some grantHex })

inductive Op where
  | lifecycle (op : Lifecycle)
  | setRestBridgeMode (subject tunnelId mode : String)
  | setRequireLogin (subject tunnelId : String) (enabled : Bool)
  | setBridgeGrant (subject tunnelId grantHex : String)

inductive Answer where
  | lifecycle (result : Except SqlError LifecycleAnswer)
  | mode (result : Except SettingError Bool)
  | setting (result : Except SqlError Bool)
  deriving DecidableEq

structure Call where
  op : Op
  faults : List Bool := []

def settle {Error α : Type} (answer : Except Error α → Answer) (x : Session Tables Error α) (s : Tables) (faults : List Bool) :
    Answer × Tables :=
  let (result,next) := perform x s faults
  (answer result,next)

def step (s : Tables) (call : Call) : Answer × Tables :=
  match call.op with
  | .lifecycle op => settle .lifecycle op.work s call.faults
  | .setRestBridgeMode subject tunnelId mode => settle .mode (setRestBridgeMode subject tunnelId mode) s call.faults
  | .setRequireLogin subject tunnelId enabled => settle .setting (setRequireLogin subject tunnelId enabled) s call.faults
  | .setBridgeGrant subject tunnelId grantHex => settle .setting (setBridgeGrant subject tunnelId grantHex) s call.faults

def run (calls : List Call) : Tables := Machine.run step {} calls

/- The bridge stands behind the login gate while it is on, and has no grant while it is off. -/
structure Gated (row : TunnelRow) : Prop where
  on : row.restBridgeMode ≠ .off → row.requireLogin = true
  off : row.restBridgeMode = .off → row.bridgeGrant = none

def Safe (s : Tables) : Prop := ∀ (id : String) (row : TunnelRow), s.tunnels[id]? = some row → Gated row

/- An owner opens the gate of a bridge that is on, or stores a grant for one that is off. -/
def Op.loosens (s : Tables) : Op → Prop
  | .setRequireLogin subject tunnelId enabled => enabled = false ∧ ∃ row, owned tunnelId subject s = some row ∧ row.restBridgeMode ≠ .off
  | .setBridgeGrant subject tunnelId _ => ∃ row, owned tunnelId subject s = some row ∧ row.restBridgeMode = .off
  | _ => False

def Loosens (s : Tables) (call : Call) : Prop := call.faults.headD false = false ∧ call.op.loosens s

section Steps
variable {s : Tables}

theorem safeInsert (safe : Safe s) {id : String} {row : TunnelRow} (gated : Gated row) : Safe { s with tunnels := s.tunnels.insert id row } := by
  intro k other found
  dsimp only at found
  rw [lookupInsert] at found
  split at found
  · exact Option.some.inj found ▸ gated
  · exact safe k other found

theorem safeMoved {m : Tables} (safe : Safe s) (moved : Moved s m) : Safe m := by
  cases moved with
  | idle => exact safe
  | created absent free fresh =>
    obtain ⟨subject,name,hostname,createdAt,routingToken,rfl⟩ := fresh
    exact safeInsert safe ⟨fun on => absurd rfl on,fun _ => rfl⟩
  | @revoked id row now found =>
    intro k other here
    simp only [Tables.revoked, lookupErase] at here
    split at here <;> try contradiction
    exact safe k other here
  | @transferred id row toSubject found =>
    have gated := safe id row found
    exact @safeInsert _ safe id { row with subject := toSubject, topologyId := none } ⟨gated.on,gated.off⟩

/- What is written to a row that was just written. -/
theorem updatedTwice {id subject : String} {row : TunnelRow} (found : s.tunnels[id]? = some row) (owner : row.subject = subject)
    (first second : TunnelRow → TunnelRow) (keeps : (first row).subject = row.subject) :
    (updateWhere (fun k (r : TunnelRow) => k = id && r.subject = subject) second
      (updateWhere (fun k (r : TunnelRow) => k = id && r.subject = subject) first s.tunnels).2).2 =
      s.tunnels.insert id (second (first row)) := by
  rw [updatedOwned found owner first]
  have again := @updatedOwned { s with tunnels := s.tunnels.insert id (first row) } id subject (first row)
    (by rw [lookupInsert, if_pos rfl]) (keeps.trans owner) second
  refine again.trans (ExtTreeMap.ext_getElem? ?_)
  intro k
  rw [lookupInsert, lookupInsert, lookupInsert]
  split <;> rfl

theorem modeSafe (safe : Safe s) (subject tunnelId mode : String) :
    Ends (setRestBridgeMode subject tunnelId mode) s (fun _ m => Safe m) := by
  unfold setRestBridgeMode
  split
  case h_1 => exact endsThrow safe
  case h_2 mode _ =>
    refine endsTransaction safe (endsExecute safe ?_)
    dsimp only
    cases known : owned tunnelId subject s with
    | none =>
      rw [touchedOwned, known, updatedForeign known]
      exact endsPure safe
    | some row =>
      obtain ⟨found,owner⟩ := ownedRow known
      have touched : (updateWhere (fun k (r : TunnelRow) => k = tunnelId && r.subject = subject)
          (fun r => { r with restBridgeMode := mode }) s.tunnels).1 > 0 := by
        rw [touchedOwned, known]
        exact Nat.one_pos
      by_cases off : mode = .off
      · rw [if_neg (fun both => both.2 off), if_pos ⟨touched,off⟩]
        refine endsExecute safe (endsPure ?_)
        dsimp only
        rw [updatedTwice found owner (fun r => { r with restBridgeMode := mode }) (fun r => { r with bridgeGrant := none }) rfl]
        exact safeInsert safe ⟨fun on => absurd off on,fun _ => rfl⟩
      · rw [if_pos ⟨touched,off⟩, if_neg (fun both => off both.2)]
        refine endsExecute safe (endsPure ?_)
        dsimp only
        rw [updatedTwice found owner (fun r => { r with restBridgeMode := mode }) (fun r => { r with requireLogin := true }) rfl]
        exact safeInsert safe ⟨fun _ => rfl,fun same => absurd same off⟩

/- A setter of one column is judged by the row it finds. -/
theorem settingSafe {subject tunnelId : String} {change : TunnelRow → TunnelRow} {faults : List Bool} (safe : Safe s)
    (gated : faults.headD false = false → ∀ row, owned tunnelId subject s = some row → Gated row → Gated (change row)) :
    Safe (perform (updateOwned subject tunnelId change) s faults).2 := by
  rw [performUpdateOwned]
  split
  case isTrue => exact safe
  case isFalse calm =>
    cases known : owned tunnelId subject s with
    | none => exact safe
    | some row => exact safeInsert safe (gated (Bool.not_eq_true _ ▸ calm) row known (safe tunnelId row (ownedRow known).1))

theorem settingUnsafe {subject tunnelId : String} {change : TunnelRow → TunnelRow} {faults : List Bool} {row : TunnelRow}
    (calm : faults.headD false = false) (known : owned tunnelId subject s = some row) (open' : ¬Gated (change row)) :
    ¬Safe (perform (updateOwned subject tunnelId change) s faults).2 := by
  rw [performUpdateOwned, calm, known]
  intro safe
  refine open' (safe tunnelId (change row) ?_)
  show (s.tunnels.insert tunnelId (change row))[tunnelId]? = some (change row)
  rw [lookupInsert, if_pos rfl]

theorem safeStep {call : Call} (safe : Safe s) (tight : ¬Loosens s call) : Safe (step s call).2 := by
  obtain ⟨op,faults⟩ := call
  cases op with
  | lifecycle op => exact safeMoved safe (lifecycleEnds op faults)
  | setRestBridgeMode subject tunnelId mode => exact modeSafe safe subject tunnelId mode faults
  | setRequireLogin subject tunnelId enabled =>
    refine settingSafe safe ?_
    intro calm row known gated
    refine ⟨fun on => ?_,gated.off⟩
    by_contra other
    exact tight ⟨calm,by simpa using other,row,known,on⟩
  | setBridgeGrant subject tunnelId grantHex =>
    refine settingSafe safe ?_
    intro calm row known gated
    exact ⟨gated.on,fun off => absurd ⟨calm,row,known,off⟩ tight⟩

theorem unsafeStep {call : Call} (loosens : Loosens s call) : ¬Safe (step s call).2 := by
  obtain ⟨op,faults⟩ := call
  obtain ⟨calm,opened⟩ := loosens
  cases op with
  | lifecycle => contradiction
  | setRestBridgeMode => contradiction
  | setRequireLogin subject tunnelId enabled =>
    obtain ⟨rfl,row,known,on⟩ := opened
    exact settingUnsafe calm known (fun gated => absurd (gated.on on) Bool.false_ne_true)
  | setBridgeGrant subject tunnelId grantHex =>
    obtain ⟨row,known,off⟩ := opened
    exact settingUnsafe calm known (fun gated => absurd (gated.off off) (Option.some_ne_none _))

end Steps

theorem emptySafe : Safe {} := by
  intro id row found
  simp at found

/- The rules hold in every state of a run exactly as long as no owner loosens them. -/
theorem bridgeGuarded (calls : List Call) :
    (∀ before after, calls = before ++ after → Safe (run before)) ↔
      ∀ before call after, calls = before ++ call :: after → ¬Loosens (run before) call := by
  constructor
  · intro safe before call after split loosens
    have next := safe (before ++ [call]) after (by rw [split]; simp)
    rw [run, Machine.runNext] at next
    exact unsafeStep loosens next
  · intro tight before
    induction before using List.reverseRecOn with
    | nil => exact fun _ _ => emptySafe
    | append_singleton before call ih =>
      intro after split
      have parts : calls = before ++ call :: after := by rw [split]; simp
      rw [run, Machine.runNext]
      exact safeStep (ih _ parts) (tight before call after parts)

/- A bridge is turned on, and the gate in front of it off. -/
theorem gateOpened : ¬∀ calls : List Call, Safe (run calls) := by
  intro safe
  have gated := safe
    [⟨.lifecycle (.create "owner" "name" none "id" "token" 0),[]⟩,⟨.setRestBridgeMode "owner" "id" "permanent",[]⟩,
      ⟨.setRequireLogin "owner" "id" false,[]⟩]
    "id" { subject := "owner", name := "name", hostname := none, createdAt := 0, routingToken := "token", restBridgeMode := .permanent }
    (by decide +kernel)
  exact absurd (gated.on nofun) Bool.false_ne_true

end CadsTunnel.RestBridge
