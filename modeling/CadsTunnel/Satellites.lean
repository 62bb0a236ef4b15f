import CadsTunnel.AlertStore
import CadsTunnel.CanonicalJson
import CadsTunnel.ShareLinks

/-! What hangs on a tunnel: access window, bridge probe, badge, alert, share links, grants,
and by its hostname the guests of the login gate and those who ask to be let in. No table
refers to the tunnels by a foreign key; every writer looks at the tunnel first, and who
revokes or moves a tunnel does so in every table. -/
namespace CadsTunnel.Satellites
open OrderedMap Sql TunnelStore AlertStore ShareLinks
open ChannelStore (toAsciiLowercase)
open Hostnames (normalizeHostname)
open Std (ExtTreeMap)

def ownerOf (tunnelId : String) (s : Tables) : Option String := s.tunnels[tunnelId]?.map TunnelRow.subject

/- The policy comes as its JSON text. -/
def setAccessPolicy (subject tunnelId policyJson : String) (now : Int) : Work Bool := do
  let owner ← select (ownerOf tunnelId)
  if owner ≠ some subject then pure false
  else
    execute (fun s => ((),{ s with accessPolicies := s.accessPolicies.insert tunnelId ⟨subject,policyJson,now⟩ }))
    pure true

def clearAccessPolicy (subject tunnelId : String) : Work Bool := do
  let owner ← select (ownerOf tunnelId)
  if owner ≠ some subject then pure false
  else
    execute (fun s => ((),{ s with accessPolicies := (deleteWhere (fun k r => k = tunnelId && r.subject = subject) s.accessPolicies).2 }))
    pure true

inductive ProbeUpdate where
  | version (version : String)
  | readiness (flags : List (String × Json.Value))

def probeStringMaxChars : Nat := 64

def isReadinessKey (key : String) : Bool :=
  "_configured".toList.isSuffixOf key.toList || "_available".toList.isSuffixOf key.toList || "_disabled".toList.isSuffixOf key.toList
    || key = "oidc_credential" || key = "role"

def cap (s : String) : String := .ofList (s.toList.take probeStringMaxChars)

def readinessFlag : String × Json.Value → Option (String × Json.Value)
  | (k,.bool b) => some (k,.bool b)
  | (k,.string s) => some (k,.string (cap s))
  | _ => none

def probeFromResult (tool : String) (result : Json.Value) : Option ProbeUpdate :=
  if tool = "bridge/status" then
    match result with
    | .object members =>
      match (members.find? (fun e => e.1 = "version")).map Prod.snd with
      | some (.string version) =>
        let version := Hostnames.trim version.toList
        if version.isEmpty then none else some (.version (cap (.ofList version)))
      | _ => none
    | _ => none
  else if tool = "bridge/config" then
    match result with
    | .object members => some (.readiness ((members.filter (fun e => isReadinessKey e.1)).filterMap readinessFlag))
    | _ => none
  else none

/- The row of a probe after an update; a new one starts without the other column. -/
def probed (floats : Json.FloatText) (subject : String) (now : Int) (update : ProbeUpdate) (row : Option ProbeRow) : ProbeRow :=
  let row := row.getD { subject, probedAt := now }
  match update with
  | .version version => { row with subject, agentVersion := some version, probedAt := now }
  | .readiness flags => { row with subject, readinessJson := some (Json.canonicalJson floats (.object flags)), probedAt := now }

def recordBridgeProbe (floats : Json.FloatText) (subject tunnelId tool : String) (result : Json.Value) (now : Int) : Work Bool :=
  match probeFromResult tool result with
  | none => pure false
  | some update =>
    transaction (do
      let isOwned ← select (fun s => (owned tunnelId subject s).isSome)
      if !isOwned then pure (.rollback false)
      else
        execute (fun s => ((),{ s with
          bridgeProbes := s.bridgeProbes.insert tunnelId (probed floats subject now update s.bridgeProbes[tunnelId]?) }))
        pure (.commit true))

/- The public ids stand under a unique index. -/
def insertBadge (tunnelId : String) (row : BadgeRow) : Work Unit :=
  statement (fun s =>
    if hasRow (fun _ b => b.publicId = row.publicId) s.badges then .error .constraint
    else (insertRow tunnelId row s.badges).map (fun rows => ((),{ s with badges := rows })))

def enableBadge (subject tunnelId publicId : String) (createdAt : Int) : Work (Option String) :=
  transaction (do
    let owns ← select (fun s => (owned tunnelId subject s).isSome)
    if !owns then pure (.rollback none)
    else
      let existing ← select (fun s => (s.badges[tunnelId]?.filter (fun b => b.subject = subject)).map BadgeRow.publicId)
      match existing with
      | some id => pure (.rollback (some id))
      | none =>
        insertBadge tunnelId ⟨subject,publicId,createdAt⟩
        pure (.commit (some publicId)))

def disableBadge (subject tunnelId : String) : Work Bool := do
  let n ← execute (fun s =>
    let (n,rows) := deleteWhere (fun k b => k = tunnelId && b.subject = subject) s.badges
    (n,{ s with badges := rows }))
  pure (n > 0)

inductive GrantError where
  | notOwner
  | db (e : SqlError)
  deriving DecidableEq

instance : FromSql GrantError := ⟨.db⟩

def grant (owner tunnelId grantee : String) : Session Tables GrantError Unit := do
  let holder ← select (ownerOf tunnelId)
  if holder = some owner then
    execute (fun s => ((),{ s with grants := (insertOrIgnore (tunnelId,grantee) () s.grants).2 }))
  else throw .notOwner

def revokeGrant (owner tunnelId grantee : String) : Session Tables GrantError Bool := do
  let holder ← select (ownerOf tunnelId)
  if holder = some owner then
    let affected ← execute (fun s =>
      let (n,rows) := deleteWhere (fun k _ => k = (tunnelId,grantee)) s.grants
      (n,{ s with grants := rows }))
    pure (affected > 0)
  else throw .notOwner

def ownedHostname (tunnelId subject : String) (s : Tables) : Option String := (owned tunnelId subject s).bind TunnelRow.hostname

def loginAllowlistAdd (subject tunnelId email : String) (now : UInt64) : Work Bool := do
  let hostname ← select (ownedHostname tunnelId subject)
  match hostname with
  | none => pure false
  | some hostname =>
    execute (fun s => ((),{ s with loginAllowlist := s.loginAllowlist.insert (hostname,toAsciiLowercase email) ⟨subject,asI64 now⟩ }))
    pure true

def loginAllowlistRemove (subject tunnelId email : String) : Work Bool := do
  let hostname ← select (ownedHostname tunnelId subject)
  match hostname with
  | none => pure false
  | some hostname =>
    execute (fun s => ((),{ s with
      loginAllowlist := (deleteWhere (fun k _ => k = (hostname,toAsciiLowercase email)) s.loginAllowlist).2 }))
    pure true

def requireLoginForHostname (hostname : String) (s : Tables) : Bool :=
  ((firstRow (fun _ t => t.hostname.any (fun h => nocase h hostname)) s.tunnels).map (fun e => e.2.requireLogin)).getD false

def maxPendingAccessRequestsPerHostname : Nat := 500

/- The requests for a hostname that are too many: all but the newest. -/
def crowdedRequest (hostname : String) (requests : BTreeMap (String × String) RequestRow) (k : String × String) (_ : RequestRow) : Bool :=
  let mine := requests.toList.filter (fun e => e.1.1 = hostname)
  let newest := (mine.mergeSort (fun a b => b.2.requestedAt ≤ a.2.requestedAt)).take maxPendingAccessRequestsPerHostname
  k.1 = hostname && !(newest.map (fun e => e.1.2)).contains k.2

def recordAccessRequest (hostname email note : String) (now : UInt64) : Work Bool :=
  match normalizeHostname hostname with
  | none => pure false
  | some hostname => do
    let gated ← select (requireLoginForHostname hostname)
    if !gated then pure false
    else
      execute (fun s => ((),{ s with accessRequests := s.accessRequests.insert (hostname,toAsciiLowercase email) ⟨note,asI64 now⟩ }))
      execute (fun s => ((),{ s with accessRequests := (deleteWhere (crowdedRequest hostname s.accessRequests) s.accessRequests).2 }))
      pure true

def dismissAccessRequest (subject tunnelId email : String) : Work Bool := do
  let hostname ← select (ownedHostname tunnelId subject)
  match hostname with
  | none => pure false
  | some hostname =>
    let n ← execute (fun s =>
      let (n,rows) := deleteWhere (fun k _ => nocase k.1 hostname && k.2 = toAsciiLowercase email) s.accessRequests
      (n,{ s with accessRequests := rows }))
    pure (n > 0)

inductive Op where
  | lifecycle (op : Lifecycle)
  | alert (op : AlertOp)
  | link (op : LinkOp)
  | setAccessPolicy (subject tunnelId policyJson : String) (now : Int)
  | clearAccessPolicy (subject tunnelId : String)
  | recordBridgeProbe (subject tunnelId tool : String) (result : Json.Value) (now : Int)
  | enableBadge (subject tunnelId publicId : String) (createdAt : Int)
  | disableBadge (subject tunnelId : String)
  | grant (owner tunnelId grantee : String)
  | revokeGrant (owner tunnelId grantee : String)
  | loginAllowlistAdd (subject tunnelId email : String) (now : UInt64)
  | loginAllowlistRemove (subject tunnelId email : String)
  | recordAccessRequest (hostname email note : String) (now : UInt64)
  | dismissAccessRequest (subject tunnelId email : String)

inductive Answer where
  | lifecycle (result : Except SqlError LifecycleAnswer)
  | alert (result : Except SqlError AlertAnswer)
  | link (result : Except SqlError LinkAnswer)
  | done (result : Except SqlError Bool)
  | badge (result : Except SqlError (Option String))
  | granted (result : Except GrantError Unit)
  | ungranted (result : Except GrantError Bool)
  deriving DecidableEq

structure Call where
  op : Op
  faults : List Bool := []

def settle {Error α : Type} (answer : Except Error α → Answer) (x : Session Tables Error α) (s : Tables) (faults : List Bool) :
    Answer × Tables :=
  let (result,next) := perform x s faults
  (answer result,next)

variable (sha256 : Words.Bytes → Hash) (floats : Json.FloatText)

def step (s : Tables) (call : Call) : Answer × Tables :=
  match call.op with
  | .lifecycle op => settle .lifecycle op.work s call.faults
  | .alert op => settle .alert op.work s call.faults
  | .link op => settle .link (op.work sha256) s call.faults
  | .setAccessPolicy subject tunnelId policyJson now => settle .done (setAccessPolicy subject tunnelId policyJson now) s call.faults
  | .clearAccessPolicy subject tunnelId => settle .done (clearAccessPolicy subject tunnelId) s call.faults
  | .recordBridgeProbe subject tunnelId tool result now => settle .done (recordBridgeProbe floats subject tunnelId tool result now) s call.faults
  | .enableBadge subject tunnelId publicId createdAt => settle .badge (enableBadge subject tunnelId publicId createdAt) s call.faults
  | .disableBadge subject tunnelId => settle .done (disableBadge subject tunnelId) s call.faults
  | .grant owner tunnelId grantee => settle .granted (grant owner tunnelId grantee) s call.faults
  | .revokeGrant owner tunnelId grantee => settle .ungranted (revokeGrant owner tunnelId grantee) s call.faults
  | .loginAllowlistAdd subject tunnelId email now => settle .done (loginAllowlistAdd subject tunnelId email now) s call.faults
  | .loginAllowlistRemove subject tunnelId email => settle .done (loginAllowlistRemove subject tunnelId email) s call.faults
  | .recordAccessRequest hostname email note now => settle .done (recordAccessRequest hostname email note now) s call.faults
  | .dismissAccessRequest subject tunnelId email => settle .done (dismissAccessRequest subject tunnelId email) s call.faults

def run (calls : List Call) : Tables := Machine.run (step sha256 floats) {} calls

/- Every satellite row belongs to a tunnel that is there, and to its owner. -/
structure Consistent (s : Tables) : Prop where
  alerts : Follows (fun k _ => k) AlertRow.subject s.alerts s.tunnels
  badges : Follows (fun k _ => k) BadgeRow.subject s.badges s.tunnels
  shareLinks : Follows (fun _ l => l.tunnelId) ShareLinkRow.subject s.shareLinks s.tunnels
  accessPolicies : Follows (fun k _ => k) PolicyRow.subject s.accessPolicies s.tunnels
  bridgeProbes : Follows (fun k _ => k) ProbeRow.subject s.bridgeProbes s.tunnels
  grants : ∀ (k : String × String) (g : Unit), s.grants[k]? = some g → ∃ row, s.tunnels[k.1]? = some row
  allowlist : ∀ (k : String × String) (a : AllowRow), s.loginAllowlist[k]? = some a →
    ∃ (id : String) (row : TunnelRow), s.tunnels[id]? = some row ∧ row.hostname = some k.1
  requests : ∀ (k : String × String) (r : RequestRow), s.accessRequests[k]? = some r →
    ∃ (id : String) (row : TunnelRow) (h : String), s.tunnels[id]? = some row ∧ row.hostname = some h ∧ nocase k.1 h
  hostnames : Distinct s.tunnels

/- What a writer of satellites leaves as it is. -/
structure Keeps (s m : Tables) : Prop where
  consistent : Consistent s → Consistent m
  tunnels : m.tunnels = s.tunnels
  revokedTokens : m.revokedTokens = s.revokedTokens

section Writers
variable {s m : Tables}

theorem keepsRefl (s : Tables) : Keeps s s := ⟨id,rfl,rfl⟩

theorem keepsTrans {a b c : Tables} (first : Keeps a b) (second : Keeps b c) : Keeps a c :=
  ⟨fun consistent => second.consistent (first.consistent consistent),second.tunnels.trans first.tunnels,
    second.revokedTokens.trans first.revokedTokens⟩

/- Rows that go. -/
theorem followsSwept {K V : Type} [Ord K] [Std.TransOrd K] [Std.LawfulEqOrd K] {tunnel : K → V → String} {owner : V → String} {rows : BTreeMap K V}
    {tunnels : BTreeMap String TunnelRow} (follows : Follows tunnel owner rows tunnels) (p : K → V → Bool) :
    Follows tunnel owner (deleteWhere p rows).2 tunnels := by
  refine followsKept follows ?_
  intro k v here
  rw [lookupDeleted, Option.filter_eq_some_iff] at here
  exact ⟨v,here.1,rfl,rfl⟩

theorem keepsAlerts (alerted : Alerted s m) : Keeps s m := by
  cases alerted with
  | idle => exact ⟨fun c => { c with },rfl,rfl⟩
  | created mine absent owner =>
    obtain ⟨found,owns⟩ := ownedRow mine
    exact ⟨fun c => { c with alerts := followsInsert c.alerts found (owns.trans owner.symm) },rfl,rfl⟩
  | @changed p change log seq keeps =>
    refine ⟨fun c => { c with alerts := followsKept c.alerts ?_ },rfl,rfl⟩
    intro k a here
    rw [lookupUpdated, Option.map_eq_some_iff] at here
    obtain ⟨old,stored,rfl⟩ := here
    refine ⟨old,stored,rfl,?_⟩
    split
    · exact keeps old
    · rfl
  | deleted => exact ⟨fun c => { c with alerts := followsSwept c.alerts _ },rfl,rfl⟩

theorem keepsLinks {sha256 : Words.Bytes → Hash} {op : LinkOp} {r : Except SqlError LinkAnswer} (effect : LinkEffect sha256 s op r m) :
    Keeps s m := by
  have changed : ∀ {linkId : String} {old l : ShareLinkRow}, s.shareLinks[linkId]? = some old → l.tunnelId = old.tunnelId →
      l.subject = old.subject → Consistent s → Follows (fun _ l => l.tunnelId) ShareLinkRow.subject (s.shareLinks.insert linkId l) s.tunnels := by
    intro linkId old l found same also c
    obtain ⟨tunnel,there,mine⟩ := c.shareLinks linkId old found
    exact followsInsert c.shareLinks (same ▸ there) (mine.trans also.symm)
  cases effect with
  | idle => exact keepsRefl s
  | minted mine =>
    obtain ⟨found,owns⟩ := ownedRow mine
    exact ⟨fun c => { c with shareLinks := followsInsert (followsSwept c.shareLinks _) found owns },rfl,rfl⟩
  | revoked found => exact ⟨fun c => { c with shareLinks := changed found rfl rfl c },rfl,rfl⟩
  | redeemed found =>
    split
    · exact ⟨fun c => { c with shareLinks := changed found rfl rfl c },rfl,rfl⟩
    · exact keepsRefl s
  | active => exact keepsRefl s
  | pruned => exact ⟨fun c => { c with shareLinks := followsSwept c.shareLinks _ },rfl,rfl⟩

theorem ownerRow {tunnelId subject : String} (mine : ownerOf tunnelId s = some subject) :
    ∃ row, s.tunnels[tunnelId]? = some row ∧ row.subject = subject := by
  obtain ⟨row,found,owns⟩ := Option.map_eq_some_iff.mp mine
  exact ⟨row,found,owns⟩

theorem setPolicyKeeps (subject tunnelId policyJson : String) (now : Int) :
    Ends (setAccessPolicy subject tunnelId policyJson now) s (fun _ m => Keeps s m) := by
  unfold setAccessPolicy
  refine endsSelect (keepsRefl s) ?_
  split
  case isTrue => exact endsPure (keepsRefl s)
  case isFalse mine =>
    obtain ⟨row,found,owns⟩ := ownerRow (not_not.mp mine)
    exact endsExecute (keepsRefl s) (endsPure ⟨fun c => { c with accessPolicies := followsInsert c.accessPolicies found owns },rfl,rfl⟩)

theorem clearPolicyKeeps (subject tunnelId : String) : Ends (clearAccessPolicy subject tunnelId) s (fun _ m => Keeps s m) := by
  unfold clearAccessPolicy
  refine endsSelect (keepsRefl s) ?_
  split
  case isTrue => exact endsPure (keepsRefl s)
  case isFalse =>
    exact endsExecute (keepsRefl s) (endsPure ⟨fun c => { c with accessPolicies := followsSwept c.accessPolicies _ },rfl,rfl⟩)

theorem probedSubject (floats : Json.FloatText) (subject : String) (now : Int) (update : ProbeUpdate) (row : Option ProbeRow) :
    (probed floats subject now update row).subject = subject := by
  cases update <;> rfl

theorem probeKeeps (floats : Json.FloatText) (subject tunnelId tool : String) (result : Json.Value) (now : Int) :
    Ends (recordBridgeProbe floats subject tunnelId tool result now) s (fun _ m => Keeps s m) := by
  unfold recordBridgeProbe
  split
  case h_1 => exact endsPure (keepsRefl s)
  case h_2 update _ =>
    refine endsTransaction (keepsRefl s) (endsSelect (keepsRefl s) ?_)
    cases mine : owned tunnelId subject s with
    | none => exact endsPure (keepsRefl s)
    | some row =>
      obtain ⟨found,owns⟩ := ownedRow mine
      refine endsExecute (keepsRefl s) (endsPure ⟨fun c => ?_,rfl,rfl⟩)
      exact { c with bridgeProbes := followsInsert c.bridgeProbes found (owns.trans (probedSubject _ _ _ _ _).symm) }

theorem enableBadgeKeeps (subject tunnelId publicId : String) (createdAt : Int) :
    Ends (enableBadge subject tunnelId publicId createdAt) s (fun _ m => Keeps s m) := by
  unfold enableBadge
  refine endsTransaction (keepsRefl s) (endsSelect (keepsRefl s) ?_)
  cases mine : owned tunnelId subject s with
  | none => exact endsPure (keepsRefl s)
  | some row =>
    obtain ⟨found,owns⟩ := ownedRow mine
    refine endsSelect (keepsRefl s) ?_
    split
    case h_1 => exact endsPure (keepsRefl s)
    case h_2 =>
      refine endsInsertUnless (fun _ => keepsRefl s) ?_
      intro absent free
      exact endsPure ⟨fun c => { c with badges := followsInsert c.badges found owns },rfl,rfl⟩

theorem disableBadgeKeeps (subject tunnelId : String) : Ends (disableBadge subject tunnelId) s (fun _ m => Keeps s m) :=
  endsExecute (keepsRefl s) (endsPure ⟨fun c => { c with badges := followsSwept c.badges _ },rfl,rfl⟩)

theorem grantKeeps (owner tunnelId grantee : String) : Ends (grant owner tunnelId grantee) s (fun _ m => Keeps s m) := by
  unfold grant
  refine endsSelect (keepsRefl s) ?_
  split
  case isFalse => exact endsThrow (keepsRefl s)
  case isTrue mine =>
    obtain ⟨row,found,owns⟩ := ownerRow mine
    refine endsLast (endsExecute (keepsRefl s) (endsPure ⟨fun c => { c with grants := ?_ },rfl,rfl⟩))
    intro k g here
    unfold insertOrIgnore at here
    split at here
    · exact c.grants k g here
    · rw [lookupInsert] at here
      split at here
      case isTrue same =>
        subst same
        exact ⟨row,found⟩
      case isFalse => exact c.grants k g here

theorem revokeGrantKeeps (owner tunnelId grantee : String) : Ends (revokeGrant owner tunnelId grantee) s (fun _ m => Keeps s m) := by
  unfold revokeGrant
  refine endsSelect (keepsRefl s) ?_
  split
  case isFalse => exact endsThrow (keepsRefl s)
  case isTrue =>
    refine endsExecute (keepsRefl s) (endsPure ⟨fun c => { c with grants := ?_ },rfl,rfl⟩)
    intro k g here
    rw [lookupDeleted, Option.filter_eq_some_iff] at here
    exact c.grants k g here.1

theorem ownedName {tunnelId subject hostname : String} (named : ownedHostname tunnelId subject s = some hostname) :
    ∃ row, s.tunnels[tunnelId]? = some row ∧ row.hostname = some hostname := by
  obtain ⟨row,mine,named⟩ := Option.bind_eq_some_iff.mp named
  exact ⟨row,(ownedRow mine).1,named⟩

theorem allowlistAddKeeps (subject tunnelId email : String) (now : UInt64) :
    Ends (loginAllowlistAdd subject tunnelId email now) s (fun _ m => Keeps s m) := by
  unfold loginAllowlistAdd
  refine endsSelect (keepsRefl s) ?_
  split
  case h_1 => exact endsPure (keepsRefl s)
  case h_2 hostname named =>
    obtain ⟨row,found,named⟩ := ownedName named
    refine endsExecute (keepsRefl s) (endsPure ⟨fun c => { c with allowlist := ?_ },rfl,rfl⟩)
    intro k a here
    dsimp only at here
    rw [lookupInsert] at here
    split at here
    case isTrue same =>
      subst same
      exact ⟨tunnelId,row,found,named⟩
    case isFalse => exact c.allowlist k a here

theorem allowlistRemoveKeeps (subject tunnelId email : String) : Ends (loginAllowlistRemove subject tunnelId email) s (fun _ m => Keeps s m) := by
  unfold loginAllowlistRemove
  refine endsSelect (keepsRefl s) ?_
  split
  case h_1 => exact endsPure (keepsRefl s)
  case h_2 =>
    refine endsExecute (keepsRefl s) (endsPure ⟨fun c => { c with allowlist := ?_ },rfl,rfl⟩)
    intro k a here
    rw [lookupDeleted, Option.filter_eq_some_iff] at here
    exact c.allowlist k a here.1

/- A request that is let in is one for a tunnel with that name, in any spelling. -/
theorem gatedTunnel {hostname : String} (gated : requireLoginForHostname hostname s = true) :
    ∃ (id : String) (row : TunnelRow) (h : String), s.tunnels[id]? = some row ∧ row.hostname = some h ∧ nocase hostname h := by
  unfold requireLoginForHostname at gated
  cases hit : firstRow (fun _ (t : TunnelRow) => t.hostname.any (fun h => nocase h hostname)) s.tunnels with
  | none =>
    rw [hit] at gated
    contradiction
  | some e =>
    obtain ⟨id,row⟩ := e
    obtain ⟨found,named⟩ := firstRowSome hit
    obtain ⟨h,named,same⟩ := (Option.any_eq_true _ _).mp named
    refine ⟨id,row,h,found,named,?_⟩
    simpa [nocase, eq_comm] using same

theorem requestKept {k : String × String → RequestRow → Bool} (c : Consistent s) : Consistent { s with
    accessRequests := (deleteWhere k s.accessRequests).2 } := by
  refine { c with requests := ?_ }
  intro k r here
  rw [lookupDeleted, Option.filter_eq_some_iff] at here
  exact c.requests k r here.1

theorem recordRequestKeeps (hostname email note : String) (now : UInt64) :
    Ends (recordAccessRequest hostname email note now) s (fun _ m => Keeps s m) := by
  unfold recordAccessRequest
  split
  case h_1 => exact endsPure (keepsRefl s)
  case h_2 hostname _ =>
    refine endsSelect (keepsRefl s) ?_
    cases gated : requireLoginForHostname hostname s with
    | false => exact endsPure (keepsRefl s)
    | true =>
      obtain ⟨id,row,h,found,named,same⟩ := gatedTunnel gated
      let written : Tables := { s with accessRequests := s.accessRequests.insert (hostname,toAsciiLowercase email) ⟨note,asI64 now⟩ }
      have keeps : Keeps s written := by
        refine ⟨fun c => { c with requests := ?_ },rfl,rfl⟩
        intro k r here
        dsimp only [written] at here
        rw [lookupInsert] at here
        split at here
        case isTrue other =>
          subst other
          exact ⟨id,row,h,found,named,same⟩
        case isFalse => exact c.requests k r here
      refine endsExecute (keepsRefl s) (endsExecute keeps (endsPure (keepsTrans keeps ?_)))
      exact ⟨requestKept,rfl,rfl⟩

theorem dismissRequestKeeps (subject tunnelId email : String) : Ends (dismissAccessRequest subject tunnelId email) s (fun _ m => Keeps s m) := by
  unfold dismissAccessRequest
  refine endsSelect (keepsRefl s) ?_
  split
  case h_1 => exact endsPure (keepsRefl s)
  case h_2 => exact endsExecute (keepsRefl s) (endsPure ⟨requestKept,rfl,rfl⟩)

end Writers
section Lifecycles
variable {s m : Tables} {id : String} {row : TunnelRow}

/- Revoking and moving a tunnel, and creating one, with all that hangs on it. -/
theorem createdConsistent (c : Consistent s) (absent : s.tunnels[id]? = none) (distinct : Distinct (s.tunnels.insert id row)) :
    Consistent { s with tunnels := s.tunnels.insert id row } := by
  have kept : ∀ {k : String} {other : TunnelRow}, s.tunnels[k]? = some other → (s.tunnels.insert id row)[k]? = some other := by
    intro k other found
    rw [lookupInsert, if_neg, found]
    rintro rfl
    rw [absent] at found
    contradiction
  refine {
    alerts := followsCreated c.alerts absent row
    badges := followsCreated c.badges absent row
    shareLinks := followsCreated c.shareLinks absent row
    accessPolicies := followsCreated c.accessPolicies absent row
    bridgeProbes := followsCreated c.bridgeProbes absent row
    grants := ?_
    allowlist := ?_
    requests := ?_
    hostnames := distinct }
  · intro k g here
    obtain ⟨other,found⟩ := c.grants k g here
    exact ⟨other,kept found⟩
  · intro k a here
    obtain ⟨there,other,found,named⟩ := c.allowlist k a here
    exact ⟨there,other,kept found,named⟩
  · intro k r here
    obtain ⟨there,other,h,found,named,same⟩ := c.requests k r here
    exact ⟨there,other,h,kept found,named,same⟩

theorem transferredConsistent (c : Consistent s) (found : s.tunnels[id]? = some row) (toSubject : String)
    (distinct : Distinct (s.transferred id row toSubject).tunnels) :
    Consistent (s.transferred id row toSubject) := by
  let moved : TunnelRow := { row with subject := toSubject, topologyId := none }
  have kept : ∀ {k : String} {other : TunnelRow}, s.tunnels[k]? = some other → ∃ after, (s.tunnels.insert id moved)[k]? = some after ∧
      after.hostname = other.hostname := by
    intro k other here
    rw [lookupInsert]
    split
    case isTrue same =>
      subst same
      rw [found] at here
      cases Option.some.inj here
      exact ⟨moved,rfl,rfl⟩
    case isFalse => exact ⟨other,here,rfl⟩
  refine {
    alerts := followsTransferred c.alerts id moved (fun _ _ => rfl) (fun _ => rfl)
    badges := followsTransferred c.badges id moved (fun _ _ => rfl) (fun _ => rfl)
    shareLinks := followsTransferred c.shareLinks id moved (fun _ _ => rfl) (fun _ => rfl)
    accessPolicies := followsTransferred c.accessPolicies id moved (fun _ _ => rfl) (fun _ => rfl)
    bridgeProbes := followsTransferred c.bridgeProbes id moved (fun _ _ => rfl) (fun _ => rfl)
    grants := ?_
    allowlist := ?_
    requests := ?_
    hostnames := distinct }
  · intro k g here
    simp only [Tables.transferred, lookupDeleted, Option.filter_eq_some_iff] at here
    obtain ⟨other,there⟩ := c.grants k g here.1
    obtain ⟨after,here,_⟩ := kept there
    exact ⟨after,here⟩
  · intro k a here
    obtain ⟨home,other,there,named⟩ := c.allowlist k a here
    obtain ⟨after,here,same⟩ := kept there
    exact ⟨home,after,here,same.trans named⟩
  · intro k r here
    obtain ⟨home,other,h,there,named,spelled⟩ := c.requests k r here
    obtain ⟨after,here,same⟩ := kept there
    exact ⟨home,after,h,here,same.trans named,spelled⟩

/- The guests that stay are not those of the hostname that goes. -/
theorem spared {V : Type} {t : BTreeMap (String × String) V} {k : String × String} {v : V}
    (here : (if row.hostname.isSome then (deleteWhere (fun k _ => row.hostname.any (nocase k.1)) t).2 else t)[k]? = some v) :
    t[k]? = some v ∧ ∀ h, row.hostname = some h → ¬nocase k.1 h := by
  cases named : row.hostname with
  | none =>
    rw [named] at here
    exact ⟨here,nofun⟩
  | some h =>
    simp only [named, Option.isSome_some, if_true, lookupDeleted, Option.filter_eq_some_iff, Option.any_some] at here
    refine ⟨here.1,?_⟩
    rintro _ ⟨⟩
    simpa using here.2

theorem revokedConsistent (c : Consistent s) (now : UInt64) (found : s.tunnels[id]? = some row)
    (distinct : Distinct (s.revoked id row now).tunnels) : Consistent (s.revoked id row now) := by
  have kept : ∀ {k : String} {other : TunnelRow}, s.tunnels[k]? = some other → k ≠ id → (s.tunnels.erase id)[k]? = some other := by
    intro k other here different
    rw [lookupErase, if_neg different, here]
  refine {
    alerts := followsRevoked c.alerts id
    badges := followsRevoked c.badges id
    shareLinks := followsRevoked c.shareLinks id
    accessPolicies := followsRevoked c.accessPolicies id
    bridgeProbes := followsRevoked c.bridgeProbes id
    grants := ?_
    allowlist := ?_
    requests := ?_
    hostnames := distinct }
  · intro k g here
    simp only [Tables.revoked, lookupDeleted, Option.filter_eq_some_iff] at here
    obtain ⟨other,there⟩ := c.grants k g here.1
    exact ⟨other,kept there (by simpa using here.2)⟩
  · intro k a here
    obtain ⟨here,spares⟩ := spared here
    obtain ⟨home,other,there,named⟩ := c.allowlist k a here
    refine ⟨home,other,kept there ?_,named⟩
    rintro rfl
    rw [found] at there
    cases Option.some.inj there
    exact spares k.1 named (decide_eq_true rfl)
  · intro k r here
    obtain ⟨here,spares⟩ := spared here
    obtain ⟨home,other,h,there,named,spelled⟩ := c.requests k r here
    refine ⟨home,other,h,kept there ?_,named,spelled⟩
    rintro rfl
    rw [found] at there
    cases Option.some.inj there
    exact spares h named spelled

theorem movedConsistent (c : Consistent s) (moved : Moved s m) : Consistent m := by
  have distinct := distinctMoved c.hostnames moved
  cases moved with
  | idle => exact c
  | created absent => exact createdConsistent c absent distinct
  | revoked now found => exact revokedConsistent c now found distinct
  | transferred toSubject found => exact transferredConsistent c found toSubject distinct

/- A token that was refused once stays so, and a tunnel that goes leaves its token behind. -/
theorem movedTokens (moved : Moved s m) :
    (∀ token ∈ s.revokedTokens, token ∈ m.revokedTokens) ∧
      ∀ (id : String) (row : TunnelRow), s.tunnels[id]? = some row → m.tunnels[id]? = none → row.routingToken ∈ m.revokedTokens := by
  cases moved with
  | idle => exact ⟨fun _ mem => mem,fun id row found gone => by rw [found] at gone; contradiction⟩
  | created absent free =>
    refine ⟨fun _ mem => mem,?_⟩
    intro k other found gone
    dsimp only at gone
    rw [lookupInsert] at gone
    split at gone <;> try contradiction
    rw [found] at gone
    contradiction
  | @revoked id row now here =>
    refine ⟨fun token mem => ?_,?_⟩
    · simp only [Tables.revoked, ExtTreeMap.mem_insert]
      exact .inr mem
    · intro k other found gone
      simp only [Tables.revoked, lookupErase] at gone
      split at gone
      case isTrue same =>
        subst same
        rw [here] at found
        cases Option.some.inj found
        simp [Tables.revoked]
      case isFalse =>
        rw [found] at gone
        contradiction
  | @transferred id row toSubject here =>
    refine ⟨fun _ mem => mem,?_⟩
    intro k other found gone
    simp only [Tables.transferred, lookupInsert] at gone
    split at gone <;> try contradiction
    rw [found] at gone
    contradiction

end Lifecycles
section Runs
variable {sha256 : Words.Bytes → Hash} {floats : Json.FloatText} {s : Tables}

theorem stepCases (sha256 : Words.Bytes → Hash) (floats : Json.FloatText) (s : Tables) (call : Call) :
    Moved s (step sha256 floats s call).2 ∨ Keeps s (step sha256 floats s call).2 := by
  obtain ⟨op,faults⟩ := call
  cases op with
  | lifecycle op => exact .inl (lifecycleEnds op faults)
  | alert op => exact .inr (keepsAlerts (alertEnds op faults))
  | link op => exact .inr (keepsLinks (linkEnds op faults))
  | setAccessPolicy => exact .inr (setPolicyKeeps _ _ _ _ faults)
  | clearAccessPolicy => exact .inr (clearPolicyKeeps _ _ faults)
  | recordBridgeProbe => exact .inr (probeKeeps _ _ _ _ _ _ faults)
  | enableBadge => exact .inr (enableBadgeKeeps _ _ _ _ faults)
  | disableBadge => exact .inr (disableBadgeKeeps _ _ faults)
  | grant => exact .inr (grantKeeps _ _ _ faults)
  | revokeGrant => exact .inr (revokeGrantKeeps _ _ _ faults)
  | loginAllowlistAdd => exact .inr (allowlistAddKeeps _ _ _ _ faults)
  | loginAllowlistRemove => exact .inr (allowlistRemoveKeeps _ _ _ faults)
  | recordAccessRequest => exact .inr (recordRequestKeeps _ _ _ _ faults)
  | dismissAccessRequest => exact .inr (dismissRequestKeeps _ _ _ faults)

theorem stepConsistent (c : Consistent s) (call : Call) : Consistent (step sha256 floats s call).2 := by
  obtain moved | keeps := stepCases sha256 floats s call
  · exact movedConsistent c moved
  · exact keeps.consistent c

theorem stepTokens (sha256 : Words.Bytes → Hash) (floats : Json.FloatText) (s : Tables) (call : Call) :
    (∀ token ∈ s.revokedTokens, token ∈ (step sha256 floats s call).2.revokedTokens) ∧
      ∀ (id : String) (row : TunnelRow), s.tunnels[id]? = some row → (step sha256 floats s call).2.tunnels[id]? = none →
        row.routingToken ∈ (step sha256 floats s call).2.revokedTokens := by
  obtain moved | keeps := stepCases sha256 floats s call
  · exact movedTokens moved
  · rw [keeps.tunnels, keeps.revokedTokens]
    refine ⟨fun _ mem => mem,?_⟩
    intro id row found gone
    rw [found] at gone
    contradiction

theorem emptyConsistent : Consistent {} := by
  refine ⟨?_,?_,?_,?_,?_,?_,?_,?_,?_⟩ <;> intro a <;> simp

theorem runTokens (s : Tables) (calls : List Call) {token : String} (mem : token ∈ s.revokedTokens) :
    token ∈ (Machine.run (step sha256 floats) s calls).revokedTokens :=
  Machine.runMonotone (fun s m => token ∈ s.revokedTokens → token ∈ m.revokedTokens) (fun _ => id)
    (fun _ _ _ first second held => second (first held)) (fun s call => (stepTokens sha256 floats s call).1 token) s calls mem

/- The answer of a revocation that went through. -/
theorem revokedStep {subject id token : String} {now : UInt64} {faults : List Bool}
    (ok : (step sha256 floats s ⟨.lifecycle (.revoke subject id now),faults⟩).1 = .lifecycle (.ok (.revoked (some token)))) :
    ∃ row, owned id subject s = some row ∧ row.routingToken = token ∧
      (step sha256 floats s ⟨.lifecycle (.revoke subject id now),faults⟩).2.tunnels[id]? = none := by
  have ends : Ends (Lifecycle.revoke subject id now).work s (fun r m =>
      r = .ok (.revoked (some token)) → ∃ row, owned id subject s = some row ∧ row.routingToken = token ∧ m.tunnels[id]? = none) := by
    refine endsGives (endsMono (revokeAnswers subject id now) ?_)
    rintro (e | answer) m answered same
    · contradiction
    · cases same
      obtain ⟨row,mine,named,rfl⟩ := answered
      refine ⟨row,mine,named,?_⟩
      simp only [Tables.revoked]
      rw [lookupErase, if_pos rfl]
  exact ends faults (Answer.lifecycle.inj ok)

/- In every run: no satellite is left behind, none is its former owner's, and the tokens of the tunnels that are gone are refused. -/
theorem satellitesFollow (sha256 : Words.Bytes → Hash) (floats : Json.FloatText) (calls : List Call) :
    Consistent (run sha256 floats calls) ∧
    (∀ before call after (id : String) (row : TunnelRow), calls = before ++ call :: after → (run sha256 floats before).tunnels[id]? = some row →
      (run sha256 floats (before ++ [call])).tunnels[id]? = none → row.routingToken ∈ (run sha256 floats calls).revokedTokens) ∧
    ∀ before subject id now faults token after, calls = before ++ ⟨.lifecycle (.revoke subject id now),faults⟩ :: after →
      (step sha256 floats (run sha256 floats before) ⟨.lifecycle (.revoke subject id now),faults⟩).1 = .lifecycle (.ok (.revoked (some token))) →
      ∃ row, owned id subject (run sha256 floats before) = some row ∧ row.routingToken = token ∧
        (run sha256 floats (before ++ [⟨.lifecycle (.revoke subject id now),faults⟩])).tunnels[id]? = none ∧
        token ∈ (run sha256 floats calls).revokedTokens := by
  have gone : ∀ before call after (id : String) (row : TunnelRow), calls = before ++ call :: after →
      (run sha256 floats before).tunnels[id]? = some row → (run sha256 floats (before ++ [call])).tunnels[id]? = none →
      row.routingToken ∈ (run sha256 floats calls).revokedTokens := by
    intro before call after id row split found gone
    rw [run, Machine.runNext] at gone
    have left := (stepTokens sha256 floats (run sha256 floats before) call).2 id row found gone
    rw [split, List.append_cons, run, Machine.runAppend, Machine.runNext]
    exact runTokens _ after left
  refine ⟨Machine.runInvariant Consistent (fun s call c => stepConsistent c call) emptyConsistent calls,gone,?_⟩
  intro before subject id now faults token after split ok
  obtain ⟨row,mine,named,absent⟩ := revokedStep ok
  refine ⟨row,mine,named,?_,?_⟩
  · rw [run, Machine.runNext]
    exact absent
  · rw [← named]
    refine gone before _ after id row split (ownedRow mine).1 ?_
    rw [run, Machine.runNext]
    exact absent

end Runs
end CadsTunnel.Satellites
