import CadsTunnel.TunnelStore

/-! Direct serving: an owner names the address at which the agent of a tunnel can be
reached without the edge, and a sweep probes it from outside; the first success advertises
the address, two failures in a row withdraw it. The sweep reads the rows, probes one
address after the other, and writes what it has made of the row as it was read. -/
namespace CadsTunnel.DirectServing
open OrderedMap Sql TunnelStore
open Std (ExtTreeMap)

def withdrawAfterFailures : UInt32 := 2

structure DirectServingState where
  advertised : Bool
  consecutiveFailures : UInt32
  deriving DecidableEq

inductive DirectServingAction where
  | publish
  | withdraw
  | hold
  deriving DecidableEq

def saturatingAdd (a b : UInt32) : UInt32 := .ofNat (min (a.toNat + b.toNat) (2 ^ 32 - 1))

def foldProbe (state : DirectServingState) (reachable : Bool) : DirectServingState × DirectServingAction :=
  if reachable then (⟨true,0⟩,if state.advertised then .hold else .publish)
  else
    let failures := saturatingAdd state.consecutiveFailures 1
    if state.advertised && failures ≥ withdrawAfterFailures then (⟨false,failures⟩,.withdraw)
    else (⟨state.advertised,failures⟩,.hold)

def enabledAt (endpoint : Option String) (r : TunnelRow) : TunnelRow := { r with directEnabled := true, directEndpoint := endpoint }

def disabled (r : TunnelRow) : TunnelRow :=
  { r with directEnabled := false, directAdvertised := false, directFailures := 0, directProbedAt := none }

def setDirectServing (subject tunnelId : String) (enabled : Bool) (endpoint : Option String) : Work Bool :=
  if enabled then updateOwned subject tunnelId (enabledAt endpoint) else updateOwned subject tunnelId disabled

structure Candidate where
  tunnelId : String
  hostname : String
  endpoint : String
  state : DirectServingState
  deriving DecidableEq

def candidateOf (e : String × TunnelRow) : Option Candidate :=
  match e.2.directEndpoint, e.2.hostname with
  | some endpoint, some hostname =>
    if e.2.directEnabled then some ⟨e.1,hostname,endpoint,⟨e.2.directAdvertised,e.2.directFailures⟩⟩ else none
  | _, _ => none

def directServingCandidates : Work (List Candidate) := select (fun s => s.tunnels.toList.filterMap candidateOf)

def probed (state : DirectServingState) (now : UInt64) (r : TunnelRow) : TunnelRow :=
  { r with directAdvertised := state.advertised, directFailures := state.consecutiveFailures, directProbedAt := some (asI64 now) }

def recordDirectProbe (tunnelId : String) (state : DirectServingState) (now : UInt64) : Work Unit :=
  execute (fun s => ((),{ s with tunnels := (updateWhere (fun k _ => k = tunnelId) (probed state now) s.tunnels).2 }))

/- What the sweep still has to probe, and the actions so far. -/
inductive Sweep where
  | idle
  | probing (now : UInt64) (candidates : List Candidate) (actions : List (String × String × DirectServingAction))
  | folded (now : UInt64) (candidate : Candidate) (next : DirectServingState) (action : DirectServingAction) (candidates : List Candidate)
      (actions : List (String × String × DirectServingAction))

def noteAction (candidate : Candidate) (action : DirectServingAction) (actions : List (String × String × DirectServingAction)) :
    List (String × String × DirectServingAction) :=
  if action ≠ .hold then actions ++ [(candidate.tunnelId,candidate.hostname,action)] else actions

/- The next step of `sweepProbes`; what a probe says is the network's. -/
def Sweep.work (now : UInt64) (reachable : Bool) : Sweep → Work Sweep
  | .idle => do
    let candidates ← attempt directServingCandidates
    match candidates with
    | .ok candidates => pure (.probing now candidates [])
    | .error _ => pure .idle
  | .probing _ [] _ => pure .idle
  | .probing now (candidate :: rest) actions =>
    let (next,action) := foldProbe candidate.state reachable
    pure (.folded now candidate next action rest actions)
  | .folded now candidate next action rest actions => do
    let recorded ← attempt (recordDirectProbe candidate.tunnelId next now)
    match recorded with
    | .ok _ => pure (.probing now rest (noteAction candidate action actions))
    | .error _ => pure (.probing now rest actions)

inductive Op where
  | lifecycle (op : Lifecycle)
  | setDirectServing (subject tunnelId : String) (enabled : Bool) (endpoint : Option String)
  | sweep (now : UInt64) (reachable : Bool)

structure Call where
  op : Op
  faults : List Bool := []

structure State where
  tables : Tables := {}
  sweep : Sweep := .idle

inductive Answer where
  | lifecycle (answer : LifecycleAnswer)
  | set (done : Bool)
  | swept
  deriving DecidableEq

def step (s : State) (call : Call) : Except SqlError Answer × State :=
  match call.op with
  | .lifecycle op =>
    let (answer,tables) := perform op.work s.tables call.faults
    (answer.map .lifecycle,{ s with tables })
  | .setDirectServing subject tunnelId enabled endpoint =>
    let (answer,tables) := perform (DirectServing.setDirectServing subject tunnelId enabled endpoint) s.tables call.faults
    (answer.map .set,{ s with tables })
  | .sweep now reachable =>
    match perform (s.sweep.work now reachable) s.tables call.faults with
    | (.ok sweep,tables) => (.ok .swept,⟨tables,sweep⟩)
    | (.error e,tables) => (.error e,{ s with tables })

/- What matters of the past: a tunnel was switched on, an address was reached. -/
inductive Event where
  | enabled (tunnelId : String)
  | reached (tunnelId endpoint : String)
  deriving DecidableEq

def switchedOn (tunnelId : String) (s m : Tables) : Bool :=
  !(s.tunnels[tunnelId]?.any TunnelRow.directEnabled) && m.tunnels[tunnelId]?.any TunnelRow.directEnabled

def events (s : State) (call : Call) : List Event :=
  match call.op with
  | .lifecycle _ => []
  | .setDirectServing _ tunnelId _ _ => if switchedOn tunnelId s.tables (step s call).2.tables then [.enabled tunnelId] else []
  | .sweep _ reachable =>
    match s.sweep with
    | .probing _ (candidate :: _) _ => if reachable then [.reached candidate.tunnelId candidate.endpoint] else []
    | _ => []

def history (calls : List Call) : List Event := Machine.log step events {} calls

/- An address was reached since the tunnel was last switched on. -/
def Vouched (log : List Event) (tunnelId endpoint : String) : Prop :=
  ∃ before after, log = before ++ .reached tunnelId endpoint :: after ∧ .enabled tunnelId ∉ after

/- The sweep has still to write what it makes of the tunnel. -/
def Sweep.pending : Sweep → List Candidate
  | .idle => []
  | .probing _ candidates _ => candidates
  | .folded _ candidate _ _ candidates _ => candidate :: candidates

def Sweep.holds (tunnelId : String) (sweep : Sweep) : Bool := sweep.pending.any (fun c => c.tunnelId = tunnelId)

def createdId : Lifecycle → Option String
  | .create _ _ _ id _ _ => some id
  | .createIfUnderOwnedLimit _ _ _ _ id _ _ => some id
  | _ => none

/- The owner switches a tunnel off, or moves it to another address, that the sweep is at; or moves one that is advertised.
Or a new tunnel comes under an id that the sweep still has. -/
def disturbs (s : State) (call : Call) : Bool :=
  match call.op with
  | .lifecycle op => (createdId op).any (fun id => s.sweep.holds id)
  | .setDirectServing subject tunnelId enabled endpoint =>
    (owned tunnelId subject s.tables).any (fun r =>
      (s.sweep.holds tunnelId && (r.directEnabled ≠ enabled || (enabled && r.directEndpoint ≠ endpoint))) ||
        (enabled && r.directAdvertised && r.directEndpoint ≠ endpoint))
  | .sweep _ _ => false

structure Served (log : List Event) (id : String) (r : TunnelRow) : Prop where
  off : r.directEnabled = false → r.directAdvertised = false ∧ r.directFailures = 0
  advertised : r.directAdvertised → ∃ endpoint, r.directEndpoint = some endpoint ∧ Vouched log id endpoint

/- What the sweep has read of a tunnel still holds of it. -/
structure Current (log : List Event) (s : Tables) (c : Candidate) : Prop where
  row : ∀ r, s.tunnels[c.tunnelId]? = some r → r.directEnabled ∧ r.directEndpoint = some c.endpoint
  vouched : c.state.advertised → Vouched log c.tunnelId c.endpoint

structure Kept (s : State) (log : List Event) : Prop where
  rows : ∀ (id : String) (r : TunnelRow), s.tables.tunnels[id]? = some r → Served log id r
  pending : ∀ c ∈ s.sweep.pending, Current log s.tables c
  next : ∀ now c next action rest actions, s.sweep = .folded now c next action rest actions → next.advertised → Vouched log c.tunnelId c.endpoint

section Tables
variable {s m : Tables} {log : List Event}

/- The part of a row that direct serving is about. -/
def SameDirect (r t : TunnelRow) : Prop :=
  t.directEnabled = r.directEnabled ∧ t.directEndpoint = r.directEndpoint ∧ t.directAdvertised = r.directAdvertised ∧ t.directFailures = r.directFailures

theorem movedRow (moved : Moved s m) (id : String) (t : TunnelRow) (here : m.tunnels[id]? = some t) :
    s.tunnels[id]? = none ∧ Fresh t ∨ ∃ r, s.tunnels[id]? = some r ∧ SameDirect r t := by
  cases moved with
  | idle => exact .inr ⟨t,here,rfl,rfl,rfl,rfl⟩
  | @created k row absent free fresh =>
    dsimp only at here
    rw [lookupInsert] at here
    split at here
    case isTrue same =>
      cases Option.some.inj here
      exact .inl ⟨same ▸ absent,fresh⟩
    case isFalse => exact .inr ⟨t,here,rfl,rfl,rfl,rfl⟩
  | revoked now found =>
    simp only [Tables.revoked, lookupErase] at here
    split at here <;> try contradiction
    exact .inr ⟨t,here,rfl,rfl,rfl,rfl⟩
  | @transferred k row toSubject found =>
    simp only [Tables.transferred, lookupInsert] at here
    split at here
    case isTrue same =>
      cases Option.some.inj here
      exact .inr ⟨row,same ▸ found,rfl,rfl,rfl,rfl⟩
    case isFalse => exact .inr ⟨t,here,rfl,rfl,rfl,rfl⟩

/- Tunnels come only under the id of a creation. -/
theorem createAbsent (subject name : String) (hostname : Option String) (id routingToken : String) (createdAt : Int) {k : String}
    (other : k ≠ id) (absent : s.tunnels[k]? = none) :
    Ends (create subject name hostname id routingToken createdAt) s (fun _ m => m.tunnels[k]? = none) := by
  unfold create
  refine endsSelect absent ?_
  split
  case isTrue => exact endsPure absent
  case isFalse =>
    refine insertTunnelEnds (fun _ => absent) (fun _ _ => endsPure ?_)
    dsimp only
    rwa [lookupInsert, if_neg other]

theorem lifecycleAbsent (op : Lifecycle) {k : String} (other : createdId op ≠ some k) (absent : s.tunnels[k]? = none) :
    Ends op.work s (fun _ m => m.tunnels[k]? = none) := by
  cases op with
  | create subject name hostname id routingToken createdAt =>
    exact endsGives (createAbsent _ _ _ _ _ _ (fun same => other (congrArg some same.symm)) absent)
  | createIfUnderOwnedLimit subject name hostname max id routingToken createdAt =>
    refine endsGives (endsRead (fun _ => absent) ?_)
    intro n _
    split
    case isTrue => exact endsPure absent
    case isFalse => exact createAbsent _ _ _ _ _ _ (fun same => other (congrArg some same.symm)) absent
  | revoke subject id now =>
    refine endsGives (endsMono (revokeAnswers subject id now) ?_)
    intro r m answered
    split at answered
    · obtain ⟨row,_,_,rfl⟩ := answered
      rw [Tables.revoked, lookupErase, absent]
      split <;> rfl
    · exact answered ▸ absent
  | transferTunnel tunnelId fromSubject toSubject targetExists =>
    refine endsGives (endsMono (transferAnswers tunnelId fromSubject toSubject targetExists) ?_)
    intro r m answered
    split at answered
    · obtain ⟨row,mine,rfl⟩ := answered
      rw [Tables.transferred, lookupInsert, if_neg]
      · exact absent
      · rintro rfl
        rw [(ownedRow mine).1] at absent
        contradiction
    · exact answered ▸ absent

theorem vouchedLater {id endpoint : String} {more : List Event} (vouched : Vouched log id endpoint) (none' : .enabled id ∉ more) :
    Vouched (log ++ more) id endpoint := by
  obtain ⟨before,after,rfl,since⟩ := vouched
  refine ⟨before,after ++ more,by simp,?_⟩
  rw [List.mem_append, not_or]
  exact ⟨since,none'⟩

theorem vouchedReached (log : List Event) (id endpoint : String) : Vouched (log ++ [.reached id endpoint]) id endpoint :=
  ⟨log,[],rfl,List.not_mem_nil⟩

theorem servedLater {id : String} {r : TunnelRow} {more : List Event} (served : Served log id r) (none' : .enabled id ∉ more) :
    Served (log ++ more) id r := by
  refine ⟨served.off,?_⟩
  intro advertised
  obtain ⟨endpoint,same,vouched⟩ := served.advertised advertised
  exact ⟨endpoint,same,vouchedLater vouched none'⟩

theorem servedSame {id : String} {r t : TunnelRow} (served : Served log id r) (same : SameDirect r t) : Served log id t := by
  obtain ⟨on,endpoint,advertised,failures⟩ := same
  constructor
  · rw [on, advertised, failures]
    exact served.off
  · rw [endpoint, advertised]
    exact served.advertised

theorem servedFresh {id : String} {t : TunnelRow} (fresh : Fresh t) : Served log id t := by
  obtain ⟨_,_,_,_,_,rfl⟩ := fresh
  exact ⟨fun _ => ⟨rfl,rfl⟩,nofun⟩

end Tables

section Steps
variable {s : State} {log : List Event}

theorem keptMoved {m : Tables} (kept : Kept s log) (moved : Moved s.tables m)
    (absent : ∀ c ∈ s.sweep.pending, s.tables.tunnels[c.tunnelId]? = none → m.tunnels[c.tunnelId]? = none) :
    Kept { s with tables := m } log := by
  refine ⟨?_,?_,kept.next⟩
  · intro id t here
    obtain ⟨_,fresh⟩ | ⟨r,found,same⟩ := movedRow moved id t here
    · exact servedFresh fresh
    · exact servedSame (kept.rows id r found) same
  · intro c mem
    refine ⟨?_,(kept.pending c mem).vouched⟩
    intro t here
    obtain ⟨gone,_⟩ | ⟨r,found,on,endpoint,_⟩ := movedRow moved c.tunnelId t here
    · rw [absent c mem gone] at here
      contradiction
    · rw [on, endpoint]
      exact (kept.pending c mem).row r found

theorem heldPending {c : Candidate} {sweep : Sweep} (mem : c ∈ sweep.pending) : sweep.holds c.tunnelId :=
  List.any_eq_true.mpr ⟨c,mem,decide_eq_true rfl⟩

theorem keptLifecycle {op : Lifecycle} (kept : Kept s log) (undisturbed : (createdId op).any (fun id => s.sweep.holds id) = false) (faults : List Bool) :
    Kept { s with tables := (perform op.work s.tables faults).2 } log := by
  refine keptMoved kept (lifecycleEnds op faults) ?_
  intro c mem gone
  refine lifecycleAbsent op ?_ gone faults
  intro same
  rw [same, Option.any_some, heldPending mem] at undisturbed
  contradiction

theorem setEnds (subject tunnelId : String) (enabled : Bool) (endpoint : Option String) (t : Tables) :
    Ends (setDirectServing subject tunnelId enabled endpoint) t (fun _ m => m = t ∨ ∃ r, owned tunnelId subject t = some r ∧
      m = { t with tunnels := t.tunnels.insert tunnelId (if enabled then enabledAt endpoint r else disabled r) }) := by
  intro faults
  have written (change : TunnelRow → TunnelRow) : (perform (updateOwned subject tunnelId change) t faults).2 = t ∨
      ∃ r, owned tunnelId subject t = some r ∧ (perform (updateOwned subject tunnelId change) t faults).2 =
        { t with tunnels := t.tunnels.insert tunnelId (change r) } := by
    rw [performUpdateOwned]
    split
    · exact .inl rfl
    · cases mine : owned tunnelId subject t with
      | none => exact .inl rfl
      | some r => exact .inr ⟨r,rfl,rfl⟩
  unfold setDirectServing
  cases enabled with
  | true => exact written (enabledAt endpoint)
  | false => exact written disabled

/- One row is written over; where the sweep is still at it, its address and its switch stay. -/
theorem keptWritten {id : String} {r t : TunnelRow} {more : List Event} (kept : Kept s log) (found : s.tables.tunnels[id]? = some r)
    (served : Served (log ++ more) id t) (only : ∀ k, .enabled k ∈ more → k = id ∧ s.sweep.holds id = false)
    (same : s.sweep.holds id → t.directEnabled = r.directEnabled ∧ t.directEndpoint = r.directEndpoint) :
    Kept { s with tables := { s.tables with tunnels := s.tables.tunnels.insert id t } } (log ++ more) := by
  have quiet : ∀ c ∈ s.sweep.pending, .enabled c.tunnelId ∉ more := by
    intro c mem switched
    obtain ⟨same,free⟩ := only _ switched
    rw [← same, heldPending mem] at free
    contradiction
  refine ⟨?_,?_,?_⟩
  · intro k u here
    rw [lookupInsert] at here
    split at here
    case isTrue same =>
      cases Option.some.inj here
      exact same ▸ served
    case isFalse other => exact servedLater (kept.rows k u here) (fun switched => other (only k switched).1)
  · intro c mem
    refine ⟨?_,fun advertised => vouchedLater ((kept.pending c mem).vouched advertised) (quiet c mem)⟩
    intro u here
    rw [lookupInsert] at here
    split at here
    case isTrue here' =>
      cases Option.some.inj here
      obtain ⟨on,endpoint⟩ := same (here' ▸ heldPending mem)
      rw [on, endpoint]
      exact (kept.pending c mem).row r (here' ▸ found)
    case isFalse => exact (kept.pending c mem).row u here
  · intro now c next action rest actions sweep advertised
    refine vouchedLater (kept.next now c next action rest actions sweep advertised) (quiet c ?_)
    have all : s.sweep = .folded now c next action rest actions := sweep
    rw [all]
    exact List.mem_cons_self

theorem switchedWritten {t : Tables} {id : String} {r u : TunnelRow} (found : t.tunnels[id]? = some r) :
    switchedOn id t { t with tunnels := t.tunnels.insert id u } = (!r.directEnabled && u.directEnabled) := by
  rw [switchedOn, found, lookupInsert, if_pos rfl, Option.any_some, Option.any_some]

theorem switchedSame (id : String) (t : Tables) : switchedOn id t t = false := by
  rw [switchedOn]
  cases t.tunnels[id]?.any TunnelRow.directEnabled <;> rfl

theorem keptOff {id : String} {r : TunnelRow} (kept : Kept s log) (found : s.tables.tunnels[id]? = some r)
    (undisturbed : s.sweep.holds id → r.directEnabled = false) :
    Kept { s with tables := { s.tables with tunnels := s.tables.tunnels.insert id (disabled r) } } log := by
  have written := @keptWritten s log id r (disabled r) [] kept found ⟨fun _ => ⟨rfl,rfl⟩,nofun⟩ (fun k none' => absurd none' List.not_mem_nil)
    (fun held => ⟨(undisturbed held).symm,rfl⟩)
  rwa [List.append_nil] at written

theorem keptOn {id : String} {endpoint : Option String} {r : TunnelRow} (kept : Kept s log) (found : s.tables.tunnels[id]? = some r)
    (undisturbed : s.sweep.holds id → r.directEnabled ∧ r.directEndpoint = endpoint) (unmoved : r.directAdvertised → r.directEndpoint = endpoint) :
    Kept { s with tables := { s.tables with tunnels := s.tables.tunnels.insert id (enabledAt endpoint r) } }
      (log ++ if r.directEnabled then [] else [.enabled id]) := by
  cases on : r.directEnabled with
  | true =>
    refine keptWritten kept found ⟨nofun,?_⟩ (fun k none' => absurd none' List.not_mem_nil) (fun held => ⟨on.symm,(undisturbed held).2.symm⟩)
    intro advertised
    obtain ⟨address,named,vouched⟩ := (kept.rows id r found).advertised advertised
    refine ⟨address,(unmoved advertised).symm.trans named,?_⟩
    show Vouched (log ++ []) id address
    rwa [List.append_nil]
  | false =>
    have free : s.sweep.holds id = false := by
      cases held : s.sweep.holds id with
      | false => rfl
      | true =>
        rw [(undisturbed held).1] at on
        contradiction
    refine keptWritten kept found ⟨nofun,?_⟩ ?_ (fun held => by rw [free] at held; contradiction)
    · intro advertised
      have quiet := ((kept.rows id r found).off on).1
      rw [show (enabledAt endpoint r).directAdvertised = r.directAdvertised from rfl, quiet] at advertised
      contradiction
    · intro k switched
      have same : Event.enabled k = .enabled id := List.mem_singleton.mp switched
      exact ⟨Event.enabled.inj same,free⟩

theorem keptSet {subject id : String} {enabled : Bool} {endpoint : Option String} {r : TunnelRow} (kept : Kept s log)
    (mine : owned id subject s.tables = some r)
    (undisturbed : (s.sweep.holds id && (r.directEnabled ≠ enabled || (enabled && r.directEndpoint ≠ endpoint)) ||
      (enabled && r.directAdvertised && r.directEndpoint ≠ endpoint)) = false) :
    Kept { s with tables := { s.tables with tunnels := s.tables.tunnels.insert id (if enabled then enabledAt endpoint r else disabled r) } }
      (log ++ if switchedOn id s.tables
        { s.tables with tunnels := s.tables.tunnels.insert id (if enabled then enabledAt endpoint r else disabled r) } then [.enabled id] else []) := by
  have found := (ownedRow mine).1
  rw [switchedWritten found]
  rw [Bool.or_eq_false_iff, Bool.and_eq_false_iff] at undisturbed
  obtain ⟨unheld,unmoved⟩ := undisturbed
  cases enabled with
  | false =>
    rw [if_neg Bool.false_ne_true, show (disabled r).directEnabled = false from rfl, Bool.and_false, if_neg Bool.false_ne_true, List.append_nil]
    refine keptOff kept found ?_
    intro held
    simpa [held] using unheld
  | true =>
    rw [if_pos rfl, show (enabledAt endpoint r).directEnabled = true from rfl, Bool.and_true]
    have turned : (if (!r.directEnabled) = true then [Event.enabled id] else []) = if r.directEnabled then [] else [.enabled id] := by
      cases r.directEnabled <;> rfl
    rw [turned]
    refine keptOn kept found ?_ ?_
    · intro held
      simpa [held] using unheld
    · intro advertises
      simpa [advertises] using unmoved

theorem candidateRow {e : String × TunnelRow} {c : Candidate} (read : candidateOf e = some c) :
    c.tunnelId = e.1 ∧ e.2.directEnabled ∧ e.2.directEndpoint = some c.endpoint ∧ c.state.advertised = e.2.directAdvertised := by
  unfold candidateOf at read
  split at read <;> try contradiction
  rename_i endpoint hostname there named
  split at read <;> try contradiction
  rename_i on
  cases Option.some.inj read
  exact ⟨rfl,on,there,rfl⟩

theorem foldAdvertised {state : DirectServingState} {reachable : Bool} (advertised : (foldProbe state reachable).1.advertised) :
    reachable ∨ state.advertised := by
  cases reachable with
  | true => exact .inl rfl
  | false =>
    refine .inr ?_
    simp only [foldProbe, Bool.false_eq_true, if_false] at advertised
    split at advertised
    · contradiction
    · exact advertised

theorem recordWrites (tunnelId : String) (state : DirectServingState) (now : UInt64) (t : Tables) :
    Ends (recordDirectProbe tunnelId state now) t (fun r m => match r with
      | .ok _ => m = { t with tunnels := (updateWhere (fun k _ => k = tunnelId) (probed state now) t.tunnels).2 }
      | .error _ => m = t) := endsLast (endsExecute rfl (endsPure rfl))

/- What a probe has made of a row is written to it. -/
theorem keptProbed {now : UInt64} {c : Candidate} {next : DirectServingState} {action : DirectServingAction} {rest : List Candidate}
    {actions more : List (String × String × DirectServingAction)} (kept : Kept s log) (sweep : s.sweep = .folded now c next action rest actions) :
    Kept ⟨{ s.tables with tunnels := (updateWhere (fun k _ => k = c.tunnelId) (probed next now) s.tables.tunnels).2 },.probing now rest more⟩ log := by
  have pending : ∀ d ∈ c :: rest, Current log s.tables d := by
    intro d mem
    refine kept.pending d ?_
    rw [sweep]
    exact mem
  have written (id : String) (t : TunnelRow)
      (here : (updateWhere (fun k _ => k = c.tunnelId) (probed next now) s.tables.tunnels).2[id]? = some t) :
      ∃ r, s.tables.tunnels[id]? = some r ∧ t = if id = c.tunnelId then probed next now r else r := by
    rw [lookupUpdated] at here
    obtain ⟨r,found,same⟩ := Option.map_eq_some_iff.mp here
    refine ⟨r,found,?_⟩
    rw [← same]
    simp
  refine ⟨?_,?_,nofun⟩
  · intro id t here
    obtain ⟨r,found,rfl⟩ := written id t here
    split
    case isTrue same =>
      subst same
      obtain ⟨on,endpoint⟩ := (pending c List.mem_cons_self).row r found
      refine ⟨?_,fun advertised => ⟨c.endpoint,endpoint,kept.next now c next action rest actions sweep advertised⟩⟩
      intro off
      rw [show (probed next now r).directEnabled = r.directEnabled from rfl, on] at off
      contradiction
    case isFalse => exact kept.rows id r found
  · intro d mem
    have current := pending d (List.mem_cons_of_mem _ mem)
    refine ⟨?_,current.vouched⟩
    intro t here
    obtain ⟨r,found,rfl⟩ := written d.tunnelId t here
    have held := current.row r found
    split <;> exact held

/- The rows are read. -/
theorem keptRead {now : UInt64} (kept : Kept s log) : Kept ⟨s.tables,.probing now (s.tables.tunnels.toList.filterMap candidateOf) []⟩ log := by
  refine ⟨kept.rows,?_,nofun⟩
  intro c mem
  obtain ⟨⟨id,r⟩,listed,read⟩ := List.mem_filterMap.mp mem
  have found := ExtTreeMap.mem_toList_iff_getElem?_eq_some.mp listed
  obtain ⟨same,on,endpoint,advertised⟩ := candidateRow read
  dsimp only at same on endpoint advertised
  refine ⟨?_,?_⟩
  · intro t here
    rw [same, found] at here
    cases Option.some.inj here
    exact ⟨on,endpoint⟩
  · intro advertises
    obtain ⟨address,named,vouched⟩ := (kept.rows id r found).advertised (advertised ▸ advertises)
    rw [endpoint] at named
    cases Option.some.inj named
    rwa [same]

theorem keptShort {sweep : Sweep} (kept : Kept s log) (fewer : ∀ c ∈ sweep.pending, c ∈ s.sweep.pending)
    (unfolded : ∀ now c next action rest actions, sweep ≠ .folded now c next action rest actions) : Kept ⟨s.tables,sweep⟩ log :=
  ⟨kept.rows,fun c mem => kept.pending c (fewer c mem),fun now c next action rest actions same => absurd same (unfolded now c next action rest actions)⟩

/- An address is probed. -/
theorem keptFolded {now : UInt64} {c : Candidate} {rest : List Candidate} {actions : List (String × String × DirectServingAction)}
    {action : DirectServingAction} {reachable : Bool} (kept : Kept s log) (sweep : s.sweep = .probing now (c :: rest) actions) :
    Kept ⟨s.tables,.folded now c (foldProbe c.state reachable).1 action rest actions⟩
      (log ++ if reachable then [.reached c.tunnelId c.endpoint] else []) := by
  have quiet (id : String) : .enabled id ∉ (if reachable then [Event.reached c.tunnelId c.endpoint] else []) := by
    cases reachable <;> simp
  have pending : ∀ d ∈ c :: rest, Current log s.tables d := by
    intro d mem
    refine kept.pending d ?_
    rw [sweep]
    exact mem
  refine ⟨fun id r found => servedLater (kept.rows id r found) (quiet id),?_,?_⟩
  · intro d mem
    exact ⟨(pending d mem).row,fun advertised => vouchedLater ((pending d mem).vouched advertised) (quiet _)⟩
  · rintro _ _ _ _ _ _ ⟨⟩ advertised
    obtain reached | before := foldAdvertised advertised
    · rw [if_pos reached]
      exact vouchedReached log c.tunnelId c.endpoint
    · exact vouchedLater ((pending c List.mem_cons_self).vouched before) (quiet _)

theorem keptSweep (kept : Kept s log) (now : UInt64) (reachable : Bool) (faults : List Bool) :
    Ends (s.sweep.work now reachable) s.tables (fun
      | .ok next, m => Kept ⟨m,next⟩ (log ++ events s ⟨.sweep now reachable,faults⟩)
      | .error _, m => Kept { s with tables := m } (log ++ events s ⟨.sweep now reachable,faults⟩)) := by
  unfold events
  cases sweep : s.sweep with
  | idle =>
    dsimp only
    rw [List.append_nil]
    refine endsAttempt (endsLast (endsSelect ?_ ?_))
    · refine endsPure (keptShort kept ?_ nofun)
      exact fun c mem => absurd mem List.not_mem_nil
    · exact endsPure (endsPure (keptRead kept))
  | probing began candidates actions =>
    cases candidates with
    | nil =>
      dsimp only
      rw [List.append_nil]
      refine endsPure (keptShort kept ?_ nofun)
      exact fun c mem => absurd mem List.not_mem_nil
    | cons c rest => exact endsPure (keptFolded kept sweep)
  | folded began c next action rest actions =>
    dsimp only
    rw [List.append_nil]
    refine endsAttempt (endsMono (recordWrites c.tunnelId next began s.tables) ?_)
    intro r m wrote
    cases r with
    | ok done =>
      rw [show m = _ from wrote]
      exact endsPure (keptProbed kept sweep)
    | error e =>
      rw [show m = _ from wrote]
      refine endsPure (keptShort kept ?_ nofun)
      intro d mem
      rw [sweep]
      exact List.mem_cons_of_mem _ mem

theorem keptStep {call : Call} (kept : Kept s log) (undisturbed : disturbs s call = false) : Kept (step s call).2 (log ++ events s call) := by
  obtain ⟨op,faults⟩ := call
  cases op with
  | lifecycle op =>
    show Kept _ (log ++ [])
    rw [List.append_nil]
    exact keptLifecycle kept undisturbed faults
  | setDirectServing subject tunnelId enabled endpoint =>
    show Kept { s with tables := (perform (setDirectServing subject tunnelId enabled endpoint) s.tables faults).2 }
      (log ++ if switchedOn tunnelId s.tables (perform (setDirectServing subject tunnelId enabled endpoint) s.tables faults).2 then [.enabled tunnelId] else [])
    obtain same | ⟨r,mine,same⟩ := setEnds subject tunnelId enabled endpoint s.tables faults
    · rw [same, switchedSame, if_neg Bool.false_ne_true, List.append_nil]
      exact kept
    · rw [same]
      rw [disturbs] at undisturbed
      dsimp only at undisturbed
      rw [mine, Option.any_some] at undisturbed
      exact keptSet kept mine undisturbed
  | sweep now reachable =>
    have ended := keptSweep kept now reachable faults faults
    unfold step
    dsimp only
    split
    case h_1 sweep tables went =>
      rw [went] at ended
      exact ended
    case h_2 e tables failed =>
      rw [failed] at ended
      exact ended

end Steps

section Runs

theorem keptRun {calls : List Call} (undisturbed : Machine.along step (fun s call => disturbs s call = false) {} calls) :
    Kept (Machine.run step {} calls) (history calls) := by
  induction calls using List.reverseRecOn with
  | nil => exact ⟨fun _ _ found => by simp [Machine.run] at found,fun _ mem => absurd mem List.not_mem_nil,nofun⟩
  | append_singleton calls call ih =>
    obtain ⟨before,here⟩ := Machine.alongAppend.mp undisturbed
    rw [Machine.runNext, history, Machine.logNext]
    exact keptStep (ih before) here.1

theorem directServingSound (calls : List Call) (undisturbed : Machine.along step (fun s call => disturbs s call = false) {} calls)
    (id : String) (r : TunnelRow) (found : (Machine.run step {} calls).tables.tunnels[id]? = some r) :
    (r.directEnabled = false → r.directAdvertised = false ∧ r.directFailures = 0) ∧
      (r.directAdvertised → ∃ endpoint, r.directEndpoint = some endpoint ∧ Vouched (history calls) id endpoint) := by
  obtain ⟨off,advertised⟩ := (keptRun undisturbed).rows id r found
  exact ⟨off,advertised⟩

/- A tunnel that is switched on, and read by the sweep. -/
def servedTunnel : List Call :=
  [⟨.lifecycle (.create "anna" "web" (some "www.example.org") "t" "k" 0),[]⟩,⟨.setDirectServing "anna" "t" true (some "192.0.2.1:443"),[]⟩,
    ⟨.sweep 1 true,[]⟩]

def servedRow : TunnelRow :=
  { subject := "anna", name := "web", hostname := some "www.example.org", createdAt := 0, routingToken := "k", directEndpoint := some "192.0.2.1:443",
    directEnabled := true, directAdvertised := true, directProbedAt := some 1 }

theorem directServingServed :
    (servedRow.directEnabled = false → servedRow.directAdvertised = false ∧ servedRow.directFailures = 0) ∧
      (servedRow.directAdvertised → ∃ endpoint, servedRow.directEndpoint = some endpoint ∧
        Vouched (history (servedTunnel ++ [⟨.sweep 1 true,[]⟩,⟨.sweep 1 true,[]⟩])) "t" endpoint) :=
  directServingSound (servedTunnel ++ [⟨.sweep 1 true,[]⟩,⟨.sweep 1 true,[]⟩]) (by decide +kernel) "t" servedRow (by decide +kernel)

/- The owner switches it off after the sweep has read it, and the sweep's result brings it back.
Or moves it to another address, which no one has reached. -/
theorem directServingDisturbed :
    let off := Machine.run step {} (servedTunnel ++ [⟨.setDirectServing "anna" "t" false none,[]⟩,⟨.sweep 1 true,[]⟩,⟨.sweep 1 true,[]⟩])
    let moved := servedTunnel ++ [⟨.sweep 1 true,[]⟩,⟨.sweep 1 true,[]⟩,⟨.setDirectServing "anna" "t" true (some "198.51.100.7:443"),[]⟩]
    off.tables.tunnels["t"]?.any (fun r => !r.directEnabled && r.directAdvertised) ∧
      (Machine.run step {} moved).tables.tunnels["t"]?.any (fun r => r.directAdvertised && r.directEndpoint = some "198.51.100.7:443") ∧
      .reached "t" "198.51.100.7:443" ∉ history moved := by decide +kernel

end Runs
end CadsTunnel.DirectServing
