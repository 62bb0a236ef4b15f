import CadsTunnel.ChannelStore

/-! The tunnel store: the tunnels of the customers, and the tables that speak of them by
tunnel or by hostname without a foreign key. Here are the rows and what creates a tunnel,
revokes it and moves it to another owner; what else writes to them is in the modules about
each use. -/
namespace CadsTunnel.TunnelStore
open OrderedMap Words Sql
open ChannelStore (toAsciiLowercase count)
open Std (ExtTreeMap)

inductive Status where
  | rot
  | gelb
  | gruen
  deriving DecidableEq

inductive ClaimState where
  | none
  | offered
  | lapsed
  deriving DecidableEq

inductive BridgeMode where
  | off
  | ephemeral
  | permanent
  deriving DecidableEq

structure TunnelRow where
  subject : String
  name : String
  hostname : Option String
  createdAt : Int
  routingToken : String
  status : Status := .rot
  assignedCa : Option String := none
  queuedAt : Option Int := none
  claimState : ClaimState := .none
  claimOfferedAt : Option Int := none
  claimDeadline : Option Int := none
  pendingRevert : Bool := false
  requireLogin : Bool := false
  certClaimOptOut : Bool := false
  directEndpoint : Option String := none
  directEnabled : Bool := false
  directAdvertised : Bool := false
  directFailures : UInt32 := 0
  directProbedAt : Option Int := none
  topologyId : Option String := none
  restBridgeMode : BridgeMode := .off
  bridgeGrant : Option String := none
  deriving DecidableEq

structure IssuanceRow where
  ca : String
  domain : String
  hostname : String
  issuedAt : Int

structure AllowRow where
  addedBy : String
  addedAt : Int

structure RequestRow where
  note : String
  requestedAt : Int

structure PolicyRow where
  subject : String
  policyJson : String
  updatedAt : Int

structure BadgeRow where
  subject : String
  publicId : String
  createdAt : Int

inductive AlertState where
  | unknown
  | up
  | down
  deriving DecidableEq

inductive DeliveryStatus where
  | ok
  | failed
  | skipped
  deriving DecidableEq

structure AlertRow where
  subject : String
  webhookUrl : String
  secretHex : String
  thresholdSecs : Int
  enabled : Bool := true
  state : AlertState := .unknown
  stateSince : Int
  lastSeenHint : Option Int := none
  lastDeliveryAt : Option Int := none
  lastDeliveryStatus : Option DeliveryStatus := none
  failures : Int := 0
  createdAt : Int

structure DeliveryRow where
  tunnelId : String
  ts : Int
  event : String
  status : DeliveryStatus
  detail : Option String

structure ProbeRow where
  subject : String
  agentVersion : Option String := none
  readinessJson : Option String := none
  probedAt : Int

structure ShareLinkRow where
  tunnelId : String
  subject : String
  hostname : String
  tokenHash : String
  label : Option String
  expiresAt : Int
  singleUse : Bool
  usedAt : Option Int := none
  createdAt : Int
  revokedAt : Option Int := none

/- The numbers are the sequences of the tables whose ids count up. -/
structure Tables where
  tunnels : BTreeMap String TunnelRow := ∅
  grants : BTreeMap (String × String) Unit := ∅
  issuanceLog : BTreeMap Nat IssuanceRow := ∅
  issuanceSeq : Nat := 0
  revokedTokens : BTreeMap String Int := ∅
  loginAllowlist : BTreeMap (String × String) AllowRow := ∅
  accessRequests : BTreeMap (String × String) RequestRow := ∅
  accessPolicies : BTreeMap String PolicyRow := ∅
  badges : BTreeMap String BadgeRow := ∅
  alerts : BTreeMap String AlertRow := ∅
  alertDeliveries : BTreeMap Nat DeliveryRow := ∅
  deliverySeq : Nat := 0
  bridgeProbes : BTreeMap String ProbeRow := ∅
  shareLinks : BTreeMap String ShareLinkRow := ∅

abbrev Work (α : Type) := Session Tables SqlError α

/- `COLLATE NOCASE`. -/
def nocase (a b : String) : Bool := toAsciiLowercase a = toAsciiLowercase b

structure SubjectTunnel where
  id : String
  name : String
  hostname : Option String
  createdAt : Int
  routingToken : String
  deriving DecidableEq

inductive CreateTunnelOutcome where
  | created (tunnel : SubjectTunnel)
  | hostnameTaken
  | overLimit
  deriving DecidableEq

structure TransferReport where
  tunnel : SubjectTunnel
  clearedTopologyId : Option String
  targetOwnedAfter : UInt32
  deriving DecidableEq

inductive TransferTunnelOutcome where
  | transferred (report : TransferReport)
  | alreadyOwnedByTarget (tunnel : SubjectTunnel)
  | notFound
  | ownerMismatch
  | targetMissing
  deriving DecidableEq

def hostnameTaken (hostname : Option String) (s : Tables) : Bool :=
  hostname.any (fun h => hasRow (fun _ row => row.hostname = some h) s.tunnels)

/- The hostnames that are not null stand under a unique index. -/
def insertTunnel (id : String) (row : TunnelRow) : Work Unit :=
  statement (fun s =>
    if hostnameTaken row.hostname s then .error .constraint
    else (insertRow id row s.tunnels).map (fun rows => ((),{ s with tunnels := rows })))

/- The id and the routing token are the texts of what the random generator gives; the time is the clock's. -/
def create (subject name : String) (hostname : Option String) (id routingToken : String) (createdAt : Int) : Work CreateTunnelOutcome := do
  let taken ← select (hostnameTaken hostname)
  if taken then pure .hostnameTaken
  else
    insertTunnel id { subject, name, hostname, createdAt, routingToken }
    pure (.created ⟨id,name,hostname,createdAt,routingToken⟩)

def createIfUnderOwnedLimit (subject name : String) (hostname : Option String) (max : UInt32) (id routingToken : String) (createdAt : Int) :
    Work CreateTunnelOutcome := do
  let ownedCount ← statement (fun s => (count (fun _ row => row.subject = subject) s.tunnels).map (fun n => (n,s)))
  if max ≤ ownedCount then pure .overLimit
  else create subject name hostname id routingToken createdAt

def owned (id subject : String) (s : Tables) : Option TunnelRow := s.tunnels[id]?.filter (fun row => row.subject = subject)

def revoke (subject id : String) (now : UInt64) : Work (Option String) :=
  transaction (do
    let row ← select (owned id subject)
    match row with
    | none => pure (.commit none)
    | some row =>
      execute (fun s => ((),{ s with tunnels := (deleteWhere (fun k r => k = id && r.subject = subject) s.tunnels).2 }))
      if row.hostname.isSome then
        execute (fun s => ((),{ s with loginAllowlist := (deleteWhere (fun k _ => row.hostname.any (nocase k.1)) s.loginAllowlist).2 }))
        execute (fun s => ((),{ s with accessRequests := (deleteWhere (fun k _ => row.hostname.any (nocase k.1)) s.accessRequests).2 }))
      execute (fun s => ((),{ s with accessPolicies := (deleteWhere (fun k _ => k = id) s.accessPolicies).2 }))
      execute (fun s => ((),{ s with alerts := (deleteWhere (fun k _ => k = id) s.alerts).2 }))
      execute (fun s => ((),{ s with alertDeliveries := (deleteWhere (fun _ d => d.tunnelId = id) s.alertDeliveries).2 }))
      execute (fun s => ((),{ s with grants := (deleteWhere (fun k _ => k.1 = id) s.grants).2 }))
      execute (fun s => ((),{ s with badges := (deleteWhere (fun k _ => k = id) s.badges).2 }))
      execute (fun s => ((),{ s with bridgeProbes := (deleteWhere (fun k _ => k = id) s.bridgeProbes).2 }))
      execute (fun s => ((),{ s with shareLinks := (deleteWhere (fun _ l => l.tunnelId = id) s.shareLinks).2 }))
      execute (fun s => ((),{ s with revokedTokens := s.revokedTokens.insert row.routingToken (asI64 now) }))
      pure (.commit (some row.routingToken)))

/- Whether the target exists is asked of the ledger. -/
def transferTunnel (tunnelId fromSubject toSubject : String) (targetExists : Except SqlError Bool) : Work TransferTunnelOutcome :=
  transaction (do
    let row ← select (fun s => s.tunnels[tunnelId]?)
    match row with
    | none => pure (.rollback .notFound)
    | some row =>
      let tunnel : SubjectTunnel := ⟨tunnelId,row.name,row.hostname,row.createdAt,row.routingToken⟩
      if row.subject = toSubject then pure (.rollback (.alreadyOwnedByTarget tunnel))
      else if row.subject ≠ fromSubject then pure (.rollback .ownerMismatch)
      else
        match targetExists with
        | .error e => throw e
        | .ok false => pure (.rollback .targetMissing)
        | .ok true =>
          execute (fun s => ((),{ s with tunnels := (updateWhere (fun k r => k = tunnelId && r.subject = fromSubject)
            (fun r => { r with subject := toSubject, topologyId := none }) s.tunnels).2 }))
          execute (fun s => ((),{ s with alerts := (updateWhere (fun k _ => k = tunnelId) (fun r => { r with subject := toSubject }) s.alerts).2 }))
          execute (fun s => ((),{ s with badges := (updateWhere (fun k _ => k = tunnelId) (fun r => { r with subject := toSubject }) s.badges).2 }))
          execute (fun s => ((),{ s with
            shareLinks := (updateWhere (fun _ l => l.tunnelId = tunnelId) (fun l => { l with subject := toSubject }) s.shareLinks).2 }))
          execute (fun s => ((),{ s with
            accessPolicies := (updateWhere (fun k _ => k = tunnelId) (fun r => { r with subject := toSubject }) s.accessPolicies).2 }))
          execute (fun s => ((),{ s with
            bridgeProbes := (updateWhere (fun k _ => k = tunnelId) (fun r => { r with subject := toSubject }) s.bridgeProbes).2 }))
          execute (fun s => ((),{ s with grants := (deleteWhere (fun k _ => k.2 = toSubject && k.1 = tunnelId) s.grants).2 }))
          let targetOwnedAfter ← statement (fun s => (count (fun _ r => r.subject = toSubject) s.tunnels).map (fun n => (n,s)))
          pure (.commit (.transferred ⟨tunnel,row.topologyId,targetOwnedAfter⟩)))

/- `UPDATE subject_tunnels SET … WHERE id = ? AND subject = ?`. -/
def updateOwned (subject tunnelId : String) (change : TunnelRow → TunnelRow) : Work Bool := do
  let n ← execute (fun s =>
    let (n,rows) := updateWhere (fun k r => k = tunnelId && r.subject = subject) change s.tunnels
    (n,{ s with tunnels := rows }))
  pure (n > 0)

inductive Lifecycle where
  | create (subject name : String) (hostname : Option String) (id routingToken : String) (createdAt : Int)
  | createIfUnderOwnedLimit (subject name : String) (hostname : Option String) (max : UInt32) (id routingToken : String) (createdAt : Int)
  | revoke (subject id : String) (now : UInt64)
  | transferTunnel (tunnelId fromSubject toSubject : String) (targetExists : Except SqlError Bool)

inductive LifecycleAnswer where
  | created (outcome : CreateTunnelOutcome)
  | revoked (token : Option String)
  | transferred (outcome : TransferTunnelOutcome)
  deriving DecidableEq

def Lifecycle.work : Lifecycle → Work LifecycleAnswer
  | .create subject name hostname id routingToken createdAt => do
    let outcome ← TunnelStore.create subject name hostname id routingToken createdAt
    pure (.created outcome)
  | .createIfUnderOwnedLimit subject name hostname max id routingToken createdAt => do
    let outcome ← TunnelStore.createIfUnderOwnedLimit subject name hostname max id routingToken createdAt
    pure (.created outcome)
  | .revoke subject id now => do
    let token ← TunnelStore.revoke subject id now
    pure (.revoked token)
  | .transferTunnel tunnelId fromSubject toSubject targetExists => do
    let outcome ← TunnelStore.transferTunnel tunnelId fromSubject toSubject targetExists
    pure (.transferred outcome)

/- A row as it is inserted. -/
def Fresh (row : TunnelRow) : Prop :=
  ∃ subject name hostname createdAt routingToken, row = { subject, name, hostname, createdAt, routingToken }

def Tables.revoked (id : String) (row : TunnelRow) (now : UInt64) (s : Tables) : Tables :=
  { s with
    tunnels := s.tunnels.erase id
    loginAllowlist := if row.hostname.isSome then (deleteWhere (fun k _ => row.hostname.any (nocase k.1)) s.loginAllowlist).2
      else s.loginAllowlist
    accessRequests := if row.hostname.isSome then (deleteWhere (fun k _ => row.hostname.any (nocase k.1)) s.accessRequests).2
      else s.accessRequests
    accessPolicies := (deleteWhere (fun k _ => k = id) s.accessPolicies).2
    alerts := (deleteWhere (fun k _ => k = id) s.alerts).2
    alertDeliveries := (deleteWhere (fun _ d => d.tunnelId = id) s.alertDeliveries).2
    grants := (deleteWhere (fun k _ => k.1 = id) s.grants).2
    badges := (deleteWhere (fun k _ => k = id) s.badges).2
    bridgeProbes := (deleteWhere (fun k _ => k = id) s.bridgeProbes).2
    shareLinks := (deleteWhere (fun _ l => l.tunnelId = id) s.shareLinks).2
    revokedTokens := s.revokedTokens.insert row.routingToken (asI64 now) }

def Tables.transferred (id : String) (row : TunnelRow) (toSubject : String) (s : Tables) : Tables :=
  { s with
    tunnels := s.tunnels.insert id { row with subject := toSubject, topologyId := none }
    alerts := (updateWhere (fun k _ => k = id) (fun r => { r with subject := toSubject }) s.alerts).2
    badges := (updateWhere (fun k _ => k = id) (fun r => { r with subject := toSubject }) s.badges).2
    shareLinks := (updateWhere (fun _ l => l.tunnelId = id) (fun l => { l with subject := toSubject }) s.shareLinks).2
    accessPolicies := (updateWhere (fun k _ => k = id) (fun r => { r with subject := toSubject }) s.accessPolicies).2
    bridgeProbes := (updateWhere (fun k _ => k = id) (fun r => { r with subject := toSubject }) s.bridgeProbes).2
    grants := (deleteWhere (fun k _ => k.2 = toSubject && k.1 = id) s.grants).2 }

/- What creating, revoking and moving a tunnel may do. -/
inductive Moved (s : Tables) : Tables → Prop where
  | idle : Moved s s
  | created {id : String} {row : TunnelRow} (absent : s.tunnels[id]? = none) (free : hostnameTaken row.hostname s = false) (fresh : Fresh row) :
      Moved s { s with tunnels := s.tunnels.insert id row }
  | revoked {id : String} {row : TunnelRow} (now : UInt64) (found : s.tunnels[id]? = some row) : Moved s (s.revoked id row now)
  | transferred {id : String} {row : TunnelRow} (toSubject : String) (found : s.tunnels[id]? = some row) :
      Moved s (s.transferred id row toSubject)

section Calls
variable {s : Tables}

theorem insertTunnelEnds {β : Type} {id : String} {row : TunnelRow} {next : Unit → Work β} {post : Except SqlError β → Tables → Prop}
    (fails : ∀ e, post (.error e) s)
    (goes : s.tunnels[id]? = none → hostnameTaken row.hostname s = false → Ends (next ()) { s with tunnels := s.tunnels.insert id row } post) :
    Ends (insertTunnel id row >>= next) s post :=
  @endsInsertUnless _ _ _ _ _ _ _ _ _ _ _ _ (hostnameTaken row.hostname) Tables.tunnels (fun rows s => { s with tunnels := rows }) _ fails goes

theorem createEnds (subject name : String) (hostname : Option String) (id routingToken : String) (createdAt : Int) :
    Ends (create subject name hostname id routingToken createdAt) s (fun _ m => Moved s m) := by
  unfold create
  refine endsSelect .idle ?_
  split
  case isTrue => exact endsPure .idle
  case isFalse =>
    refine insertTunnelEnds (fun _ => .idle) (fun absent free => endsPure ?_)
    exact .created absent free ⟨subject,name,hostname,createdAt,routingToken,rfl⟩

theorem createIfUnderEnds (subject name : String) (hostname : Option String) (max : UInt32) (id routingToken : String) (createdAt : Int) :
    Ends (createIfUnderOwnedLimit subject name hostname max id routingToken createdAt) s (fun _ m => Moved s m) := by
  refine endsRead (fun _ => .idle) ?_
  intro n _
  split
  case isTrue => exact endsPure .idle
  case isFalse => exact createEnds _ _ _ _ _ _

theorem erasedOwned {id subject : String} {row : TunnelRow} (found : s.tunnels[id]? = some row) (owner : row.subject = subject) :
    (deleteWhere (fun k (r : TunnelRow) => k = id && r.subject = subject) s.tunnels).2 = s.tunnels.erase id := by
  rw [deletedRow, found, Option.any_some, if_pos]
  simpa using owner

theorem ownedRow {id subject : String} {row : TunnelRow} (mine : owned id subject s = some row) :
    s.tunnels[id]? = some row ∧ row.subject = subject := by
  simpa [owned, Option.filter_eq_some_iff] using mine

theorem rowOwned {id subject : String} {row : TunnelRow} (found : s.tunnels[id]? = some row) (owner : row.subject = subject) :
    owned id subject s = some row := by
  simpa [owned, Option.filter_eq_some_iff] using ⟨found,owner⟩

theorem updatedOwned {id subject : String} {row : TunnelRow} (found : s.tunnels[id]? = some row) (owner : row.subject = subject)
    (change : TunnelRow → TunnelRow) :
    (updateWhere (fun k (r : TunnelRow) => k = id && r.subject = subject) change s.tunnels).2 = s.tunnels.insert id (change row) := by
  have mine := rowOwned found owner
  rw [owned] at mine
  rw [updatedOne, mine]
  rfl

/- Nothing happens to a tunnel that is unknown or someone else's. -/
theorem updatedForeign {id subject : String} (foreign : owned id subject s = none) (change : TunnelRow → TunnelRow) :
    (updateWhere (fun k (r : TunnelRow) => k = id && r.subject = subject) change s.tunnels).2 = s.tunnels := by
  rw [owned] at foreign
  rw [updatedOne, foreign]
  rfl

theorem touchedOwned {id subject : String} (s : Tables) (change : TunnelRow → TunnelRow) :
    (updateWhere (fun k (r : TunnelRow) => k = id && r.subject = subject) change s.tunnels).1 = if (owned id subject s).isSome then 1 else 0 := by
  rw [updateWhere, touchedOne, owned]

/- An owner writes to its own row. -/
theorem performUpdateOwned (subject tunnelId : String) (change : TunnelRow → TunnelRow) (s : Tables) (faults : List Bool) :
    perform (updateOwned subject tunnelId change) s faults =
      if faults.headD false then (.error .failure,s)
      else (.ok (owned tunnelId subject s).isSome,
        ((owned tunnelId subject s).map (fun row => { s with tunnels := s.tunnels.insert tunnelId (change row) })).getD s) := by
  rw [updateOwned, performExecute]
  split
  · rfl
  · show (Except.ok (decide (0 < (updateWhere (fun k (r : TunnelRow) => k = tunnelId && r.subject = subject) change s.tunnels).1)),
      { s with tunnels := (updateWhere (fun k (r : TunnelRow) => k = tunnelId && r.subject = subject) change s.tunnels).2 }) = _
    rw [touchedOwned]
    cases known : owned tunnelId subject s with
    | none =>
      rw [updatedForeign known]
      rfl
    | some row =>
      rw [updatedOwned (ownedRow known).1 (ownedRow known).2]
      rfl

/- What the answer of a revocation says of the tables. -/
theorem revokeAnswers (subject id : String) (now : UInt64) : Ends (revoke subject id now) s (fun r m =>
    match r with
    | .ok (some token) => ∃ row, owned id subject s = some row ∧ row.routingToken = token ∧ m = s.revoked id row now
    | _ => m = s) := by
  unfold revoke
  refine endsTransaction rfl (endsSelect rfl ?_)
  cases mine : owned id subject s with
  | none => exact endsPure rfl
  | some row =>
    obtain ⟨found,owner⟩ := ownedRow mine
    have gone := erasedOwned found owner
    dsimp only
    refine endsExecute rfl ?_
    split
    case isTrue named =>
      iterate 10 refine endsExecute rfl ?_
      refine endsPure ⟨row,rfl,rfl,?_⟩
      simp only [Tables.revoked, named, if_true, gone]
    case isFalse unnamed =>
      iterate 8 refine endsExecute rfl ?_
      refine endsPure ⟨row,rfl,rfl,?_⟩
      simp only [Tables.revoked, unnamed, Bool.false_eq_true, if_false, gone]

theorem revokeEnds (subject id : String) (now : UInt64) : Ends (revoke subject id now) s (fun _ m => Moved s m) := by
  refine endsMono (revokeAnswers subject id now) ?_
  intro r m answered
  split at answered
  · obtain ⟨row,mine,_,rfl⟩ := answered
    exact .revoked now (ownedRow mine).1
  · exact answered ▸ .idle

/- And of a transfer. -/
theorem transferAnswers (tunnelId fromSubject toSubject : String) (targetExists : Except SqlError Bool) :
    Ends (transferTunnel tunnelId fromSubject toSubject targetExists) s (fun r m =>
      match r with
      | .ok (.transferred _) => ∃ row, owned tunnelId fromSubject s = some row ∧ m = s.transferred tunnelId row toSubject
      | _ => m = s) := by
  unfold transferTunnel
  refine endsTransaction rfl (endsSelect rfl ?_)
  cases found : s.tunnels[tunnelId]? with
  | none => exact endsPure rfl
  | some row =>
    dsimp only
    split
    case isTrue => exact endsPure rfl
    case isFalse =>
      split
      case isTrue => exact endsPure rfl
      case isFalse owner =>
        rw [not_not] at owner
        have moved := updatedOwned found owner (fun r => { r with subject := toSubject, topologyId := none })
        split
        case h_1 => exact endsThrow rfl
        case h_2 => exact endsPure rfl
        case h_3 =>
          iterate 7 refine endsExecute rfl ?_
          refine endsRead (fun _ => rfl) ?_
          intro n _
          refine endsPure ⟨row,rowOwned found owner,?_⟩
          simp only [Tables.transferred, moved]

theorem transferTunnelEnds (tunnelId fromSubject toSubject : String) (targetExists : Except SqlError Bool) :
    Ends (transferTunnel tunnelId fromSubject toSubject targetExists) s (fun _ m => Moved s m) := by
  refine endsMono (transferAnswers tunnelId fromSubject toSubject targetExists) ?_
  intro r m answered
  split at answered
  · obtain ⟨row,mine,rfl⟩ := answered
    exact .transferred toSubject (ownedRow mine).1
  · exact answered ▸ .idle

theorem lifecycleEnds (op : Lifecycle) : Ends op.work s (fun _ m => Moved s m) := by
  cases op with
  | create => exact endsGives (createEnds _ _ _ _ _ _)
  | createIfUnderOwnedLimit => exact endsGives (createIfUnderEnds _ _ _ _ _ _ _)
  | revoke => exact endsGives (revokeEnds _ _ _)
  | transferTunnel => exact endsGives (transferTunnelEnds _ _ _ _)

/- No two tunnels have the same hostname. -/
def Distinct (tunnels : BTreeMap String TunnelRow) : Prop :=
  ∀ (a b : String) (t u : TunnelRow) (h : String), tunnels[a]? = some t → tunnels[b]? = some u → t.hostname = some h → u.hostname = some h → a = b

theorem namedApart {hostname : Option String} (free : hostnameTaken hostname s = false) {k : String} {row : TunnelRow} {h : String}
    (found : s.tunnels[k]? = some row) (named : row.hostname = some h) : hostname ≠ some h := by
  intro same
  refine absurd free ((Bool.not_eq_false _).mpr ?_)
  rw [hostnameTaken, same, Option.any_some]
  exact hasRowIff.mpr ⟨k,row,found,decide_eq_true named⟩

/- Rows that keep their hostnames, whatever else becomes of them. -/
theorem distinctKept {tunnels next : BTreeMap String TunnelRow} (distinct : Distinct tunnels)
    (kept : ∀ (k : String) (row : TunnelRow), next[k]? = some row → ∃ old, tunnels[k]? = some old ∧ row.hostname = old.hostname) : Distinct next := by
  intro a b t u h here there named also
  obtain ⟨t',here,same⟩ := kept a t here
  obtain ⟨u',there,same'⟩ := kept b u there
  exact distinct a b t' u' h here there (same ▸ named) (same' ▸ also)

theorem distinctMoved {m : Tables} (distinct : Distinct s.tunnels) (moved : Moved s m) : Distinct m.tunnels := by
  cases moved with
  | idle => exact distinct
  | @created id row absent free fresh =>
    intro a b t u h here there named also
    dsimp only at here there
    rw [lookupInsert] at here there
    split at here
    case isTrue first =>
      cases Option.some.inj here
      split at there
      case isTrue second => exact first.trans second.symm
      case isFalse => exact absurd named (namedApart free there also)
    case isFalse =>
      split at there
      case isTrue =>
        cases Option.some.inj there
        exact absurd also (namedApart free here named)
      case isFalse => exact distinct a b t u h here there named also
  | revoked now found =>
    refine distinctKept distinct ?_
    intro k row here
    simp only [Tables.revoked, lookupErase] at here
    split at here <;> try contradiction
    exact ⟨row,here,rfl⟩
  | @transferred id row toSubject found =>
    refine distinctKept distinct ?_
    intro k other here
    simp only [Tables.transferred, lookupInsert] at here
    split at here
    case isTrue same =>
      cases Option.some.inj here
      exact ⟨row,same ▸ found,rfl⟩
    case isFalse => exact ⟨other,here,rfl⟩

end Calls
section Following
variable {K V : Type} [Ord K] [Std.TransOrd K] [Std.LawfulEqOrd K] {tunnel : K → V → String} {owner : V → String}
  {rows next : BTreeMap K V} {tunnels : BTreeMap String TunnelRow} {id : String} {row : TunnelRow}

/- Every row names a tunnel that is there, and its owner. -/
def Follows (tunnel : K → V → String) (owner : V → String) (rows : BTreeMap K V) (tunnels : BTreeMap String TunnelRow) : Prop :=
  ∀ (k : K) (v : V), rows[k]? = some v → ∃ row, tunnels[tunnel k v]? = some row ∧ row.subject = owner v

omit [Std.LawfulEqOrd K] in
theorem followsCreated (follows : Follows tunnel owner rows tunnels) (absent : tunnels[id]? = none) (row : TunnelRow) :
    Follows tunnel owner rows (tunnels.insert id row) := by
  intro k v here
  obtain ⟨other,found,mine⟩ := follows k v here
  refine ⟨other,?_,mine⟩
  rw [lookupInsert, if_neg, found]
  intro same
  rw [same, absent] at found
  contradiction

theorem followsRevoked (follows : Follows tunnel owner rows tunnels) (id : String) :
    Follows tunnel owner (deleteWhere (fun k v => tunnel k v = id) rows).2 (tunnels.erase id) := by
  intro k v here
  rw [lookupDeleted, Option.filter_eq_some_iff] at here
  obtain ⟨other,found,mine⟩ := follows k v here.1
  refine ⟨other,?_,mine⟩
  rw [lookupErase, if_neg, found]
  simpa using here.2

theorem followsTransferred (follows : Follows tunnel owner rows tunnels) (id : String) (row : TunnelRow) {change : V → V}
    (stays : ∀ k v, tunnel k (change v) = tunnel k v) (names : ∀ v, owner (change v) = row.subject) :
    Follows tunnel owner (updateWhere (fun k v => tunnel k v = id) change rows).2 (tunnels.insert id row) := by
  intro k v here
  rw [lookupUpdated, Option.map_eq_some_iff] at here
  obtain ⟨old,stored,rfl⟩ := here
  by_cases same : tunnel k old = id
  · rw [if_pos (decide_eq_true same)]
    exact ⟨row,by rw [stays, same, lookupInsert, if_pos rfl],(names old).symm⟩
  · rw [if_neg (by simpa using same)]
    obtain ⟨other,found,mine⟩ := follows k old stored
    exact ⟨other,by rw [lookupInsert, if_neg same, found],mine⟩

theorem followsInsert (follows : Follows tunnel owner rows tunnels) [DecidableEq K] {k : K} {v : V} (found : tunnels[tunnel k v]? = some row)
    (mine : row.subject = owner v) : Follows tunnel owner (rows.insert k v) tunnels := by
  intro a b here
  rw [lookupInsert] at here
  split at here
  case isTrue same =>
    cases Option.some.inj here
    exact ⟨row,same ▸ found,mine⟩
  case isFalse => exact follows a b here

omit [Std.LawfulEqOrd K] in
/- Rows that go, and changes of other columns. -/
theorem followsKept (follows : Follows tunnel owner rows tunnels)
    (kept : ∀ (k : K) (v : V), next[k]? = some v → ∃ old, rows[k]? = some old ∧ tunnel k v = tunnel k old ∧ owner v = owner old) :
    Follows tunnel owner next tunnels := by
  intro k v here
  obtain ⟨old,stored,same,also⟩ := kept k v here
  rw [same, also]
  exact follows k old stored

end Following
end CadsTunnel.TunnelStore
