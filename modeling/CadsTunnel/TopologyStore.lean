import CadsTunnel.ChannelStore

/-! The topology store: topologies with their owner and the operator key bound to them, the
undirected edges drawn in each, the accounts it is shared with, and the agents with the one
topology each of them is in. An edge has the lower-case spelling of its ends, the smaller
first, and every writer normalizes for itself. -/
namespace CadsTunnel.TopologyStore
open OrderedMap Words Sql
open ChannelStore (toAsciiLowercase)
open Std (ExtTreeMap)

structure TopologyRow where
  owner : String
  netUuid : String
  operatorPubkey : Option Bytes := none
  deriving DecidableEq

structure ShareRow where
  addedBy : String
  addedAt : Int
  deriving DecidableEq

structure AgentRow where
  owner : String
  topology : Option String
  deriving DecidableEq

/- The topology and the two ends. -/
abbrev EdgeKey := String × String × String

/- The value of an edge is the channel attached to it. -/
structure Tables where
  topologies : BTreeMap String TopologyRow := ∅
  edges : BTreeMap EdgeKey (Option Bytes) := ∅
  shares : BTreeMap (String × String) ShareRow := ∅
  agents : BTreeMap String AgentRow := ∅

inductive AssignError where
  | alreadyAssigned (topology : String)
  | notAssigned
  | notAuthorized
  deriving DecidableEq

/- The operations that answer with a bare database error have it as `db`. -/
inductive TopologyError where
  | assign (e : AssignError)
  | db (e : SqlError)
  deriving DecidableEq

instance : FromSql TopologyError := ⟨.db⟩

abbrev Work (α : Type) := Session Tables TopologyError α

structure AgentAssignment where
  owner : String
  topology : Option String
  deriving DecidableEq

def AgentAssignment.new (owner : String) : AgentAssignment := ⟨owner,none⟩

def AgentAssignment.assign (a : AgentAssignment) (caller topology : String) : Except AssignError AgentAssignment :=
  if caller ≠ a.owner then .error .notAuthorized
  else
    match a.topology with
    | some existing => .error (.alreadyAssigned existing)
    | none => .ok { a with topology := some topology }

def AgentAssignment.revoke (a : AgentAssignment) (caller : String) : Except AssignError AgentAssignment :=
  match a.topology with
  | none => .error .notAssigned
  | some current => if caller ≠ a.owner ∧ caller ≠ current then .error .notAuthorized else .ok { a with topology := none }

def setOperator (verify : Key → Bytes → Signature → Bool) (owner id : String) (operatorPubkey : Key) (proof : Signature) : Work Bool :=
  if verify operatorPubkey (ChannelObjects.topologyOperatorBindingBytes id operatorPubkey) proof then do
    let n ← execute (fun s =>
      let (n,rows) := updateWhere (fun k t => k = id && t.owner = owner) (fun t => { t with operatorPubkey := some operatorPubkey.toList }) s.topologies
      (n,{ s with topologies := rows }))
    pure (n = 1)
  else pure false

def insertTopology (id : String) (row : TopologyRow) : Work Unit :=
  statement (fun s =>
    if hasRow (fun _ t => t.netUuid = row.netUuid) s.topologies then .error .constraint
    else (insertRow id row s.topologies).map (fun rows => ((),{ s with topologies := rows })))

def createTopology (owner id netUuid : String) : Work Bool := do
  let clash ← select (fun s => hasRow (fun k t => k = id || t.netUuid = netUuid) s.topologies)
  if clash then pure false
  else
    insertTopology id { owner, netUuid }
    pure true

def deleteTopologyTx (owner id : String) : Work Bool := do
  let n ← execute (fun s =>
    let (n,rows) := deleteWhere (fun k t => k = id && t.owner = owner) s.topologies
    (n,{ s with topologies := rows }))
  if n > 0 then
    execute (fun s => ((),{ s with edges := (deleteWhere (fun k _ => k.1 = id) s.edges).2 }))
    execute (fun s => ((),{ s with shares := (deleteWhere (fun k _ => k.1 = id) s.shares).2 }))
    execute (fun s => ((),{ s with agents := (updateWhere (fun _ a => a.topology = some id) (fun a => { a with topology := none }) s.agents).2 }))
    pure true
  else pure false

def deleteTopology (owner id : String) : Work Bool :=
  transaction (do
    let removed ← deleteTopologyTx owner id
    pure (.commit removed))

def deleteAllOwnedBy (owner : String) : Work Nat :=
  transaction (do
    let ids ← select (fun s => (s.topologies.filter (fun _ t => t.owner = owner)).keys)
    let removed ← ids.foldlM (fun (removed : Nat) id => do
      let gone ← deleteTopologyTx owner id
      pure (if gone then removed + 1 else removed)) 0
    execute (fun s => ((),{ s with agents := (deleteWhere (fun _ a => a.owner = owner) s.agents).2 }))
    execute (fun s => ((),{ s with shares := (deleteWhere (fun _ r => r.addedBy = owner) s.shares).2 }))
    pure (.commit removed))

def removeSharesByEmail (email : String) : Work Nat :=
  execute (fun s =>
    let (n,rows) := deleteWhere (fun k _ => k.2 = toAsciiLowercase email) s.shares
    (n,{ s with shares := rows }))

def ownsTopology (owner topology : String) : Work Bool := select (fun s => s.topologies[topology]?.any (fun t => t.owner = owner))

def isShared (topology email : String) : Work Bool := select (fun s => (s.shares[(topology,toAsciiLowercase email)]?).isSome)

def canCollaborate (subject : String) (subjectEmail : Option String) (topology : String) : Work Bool := do
  let mine ← ownsTopology subject topology
  if mine then pure true
  else
    match subjectEmail with
    | none => pure false
    | some email => isShared topology email

def edgeKey (topology a b : String) : EdgeKey :=
  let a := toAsciiLowercase a
  let b := toAsciiLowercase b
  if a ≤ b then (topology,a,b) else (topology,b,a)

/- The three writes on one edge, each behind a check of who may edit the topology. -/
def wireEdge (mayEdit : Work Bool) (topology a b : String) : Work Bool :=
  if toAsciiLowercase a = toAsciiLowercase b then pure false
  else do
    let allowed ← mayEdit
    if allowed then
      let n ← execute (fun s =>
        let (n,rows) := insertOrIgnore (edgeKey topology a b) none s.edges
        (n,{ s with edges := rows }))
      pure (n > 0)
    else pure false

def unwireEdge (mayEdit : Work Bool) (topology a b : String) : Work Bool := do
  let allowed ← mayEdit
  if allowed then
    let n ← execute (fun s =>
      let (n,rows) := deleteWhere (fun k _ => k = edgeKey topology a b) s.edges
      (n,{ s with edges := rows }))
    pure (n > 0)
  else pure false

def addEdge (owner topology a b : String) : Work Bool := wireEdge (ownsTopology owner topology) topology a b

def removeEdge (owner topology a b : String) : Work Bool := unwireEdge (ownsTopology owner topology) topology a b

def addEdgeCollab (subject : String) (subjectEmail : Option String) (topology a b : String) : Work Bool :=
  wireEdge (canCollaborate subject subjectEmail topology) topology a b

def removeEdgeCollab (subject : String) (subjectEmail : Option String) (topology a b : String) : Work Bool :=
  unwireEdge (canCollaborate subject subjectEmail topology) topology a b

def setEdgeChannel (subject : String) (subjectEmail : Option String) (topology a b : String) (channelId : Option ChannelId) : Work Bool := do
  let allowed ← canCollaborate subject subjectEmail topology
  if allowed then
    let n ← execute (fun s =>
      let (n,rows) := updateWhere (fun k _ => k = edgeKey topology a b) (fun _ => channelId.map Vector.toList) s.edges
      (n,{ s with edges := rows }))
    pure (n > 0)
  else pure false

def shareAdd (owner topology email : String) (now : Int) : Work Bool := do
  let mine ← ownsTopology owner topology
  if mine then
    execute (fun s => ((),{ s with shares := (insertOrIgnore (topology,toAsciiLowercase email) ⟨owner,now⟩ s.shares).2 }))
    pure true
  else pure false

def shareRemove (owner topology email : String) : Work Bool := do
  let mine ← ownsTopology owner topology
  if mine then
    let n ← execute (fun s =>
      let (n,rows) := deleteWhere (fun k _ => k = (topology,toAsciiLowercase email)) s.shares
      (n,{ s with shares := rows }))
    pure (n > 0)
  else pure false

/- The owner assigns the agent anew to the topology of its row, which always succeeds. -/
def AgentRow.assignment (row : AgentRow) : AgentAssignment :=
  let a := AgentAssignment.new row.owner
  match row.topology with
  | none => a
  | some t => (a.assign row.owner t).toOption.getD a

def load (agent : String) : Work (Option AgentAssignment) := select (fun s => s.agents[agent]?.map AgentRow.assignment)

def persist (agent : String) (a : AgentAssignment) : Work Unit :=
  execute (fun s => ((),{ s with agents := s.agents.insert agent ⟨a.owner,a.topology⟩ }))

def assign (caller agent topology : String) : Work Unit := do
  let row ← load agent
  match (row.getD (.new caller)).assign caller topology with
  | .error e => throw (.assign e)
  | .ok a => persist agent a

def revoke (caller agent : String) : Work Unit := do
  let row ← load agent
  match row with
  | none => throw (.assign .notAssigned)
  | some a =>
    match a.revoke caller with
    | .error e => throw (.assign e)
    | .ok a => persist agent a

inductive Op where
  | create (owner id netUuid : String)
  | delete (owner id : String)
  | deleteAll (owner : String)
  | setOperator (owner id : String) (operatorPubkey : Key) (proof : Signature)
  | addEdge (owner topology a b : String)
  | removeEdge (owner topology a b : String)
  | addEdgeCollab (subject : String) (subjectEmail : Option String) (topology a b : String)
  | removeEdgeCollab (subject : String) (subjectEmail : Option String) (topology a b : String)
  | setEdgeChannel (subject : String) (subjectEmail : Option String) (topology a b : String) (channelId : Option ChannelId)
  | shareAdd (owner topology email : String) (now : Int)
  | shareRemove (owner topology email : String)
  | removeShares (email : String)
  | assign (caller agent topology : String)
  | revoke (caller agent : String)

inductive Answer where
  | done (yes : Bool)
  | removed (n : Nat)
  | moved
  deriving DecidableEq

structure Call where
  op : Op
  faults : List Bool := []

variable (verify : Key → Bytes → Signature → Bool)

def Op.work : Op → Work Answer
  | .create owner id netUuid => do
    let yes ← createTopology owner id netUuid
    pure (.done yes)
  | .delete owner id => do
    let yes ← deleteTopology owner id
    pure (.done yes)
  | .deleteAll owner => do
    let n ← deleteAllOwnedBy owner
    pure (.removed n)
  | .setOperator owner id operatorPubkey proof => do
    let yes ← TopologyStore.setOperator verify owner id operatorPubkey proof
    pure (.done yes)
  | .addEdge owner topology a b => do
    let yes ← TopologyStore.addEdge owner topology a b
    pure (.done yes)
  | .removeEdge owner topology a b => do
    let yes ← TopologyStore.removeEdge owner topology a b
    pure (.done yes)
  | .addEdgeCollab subject subjectEmail topology a b => do
    let yes ← TopologyStore.addEdgeCollab subject subjectEmail topology a b
    pure (.done yes)
  | .removeEdgeCollab subject subjectEmail topology a b => do
    let yes ← TopologyStore.removeEdgeCollab subject subjectEmail topology a b
    pure (.done yes)
  | .setEdgeChannel subject subjectEmail topology a b channelId => do
    let yes ← TopologyStore.setEdgeChannel subject subjectEmail topology a b channelId
    pure (.done yes)
  | .shareAdd owner topology email now => do
    let yes ← TopologyStore.shareAdd owner topology email now
    pure (.done yes)
  | .shareRemove owner topology email => do
    let yes ← TopologyStore.shareRemove owner topology email
    pure (.done yes)
  | .removeShares email => do
    let n ← removeSharesByEmail email
    pure (.removed n)
  | .assign caller agent topology => do
    TopologyStore.assign caller agent topology
    pure .moved
  | .revoke caller agent => do
    TopologyStore.revoke caller agent
    pure .moved

def step (s : Tables) (call : Call) : Except TopologyError Answer × Tables := perform (call.op.work verify) s call.faults

def run (calls : List Call) : Tables := Machine.run (step verify) {} calls

/- The store without a topology, and without everything of an account. -/
def Tables.dropped (id : String) (s : Tables) : Tables where
  topologies := s.topologies.erase id
  edges := (deleteWhere (fun k _ => k.1 = id) s.edges).2
  shares := (deleteWhere (fun k _ => k.1 = id) s.shares).2
  agents := (updateWhere (fun _ a => a.topology = some id) (fun a => { a with topology := none }) s.agents).2

def Tables.droppedOf (owner : String) (s : Tables) (id : String) : Tables :=
  if s.topologies[id]?.any (fun t => t.owner = owner) then s.dropped id else s

def Tables.forsaken (owner : String) (s : Tables) : Tables :=
  { s with
    agents := (deleteWhere (fun _ a => a.owner = owner) s.agents).2
    shares := (deleteWhere (fun _ r => r.addedBy = owner) s.shares).2 }

def Tables.withdrawn (owner : String) (s : Tables) : Tables :=
  ((s.topologies.filter (fun _ t => t.owner = owner)).keys.foldl (Tables.droppedOf owner) s).forsaken owner

def Tables.placed (agent : String) (row : AgentRow) (s : Tables) : Tables := { s with agents := s.agents.insert agent row }

/- Whoever may edit a topology owns it or has it shared. -/
def editable (topology : String) (s : Tables) : Prop :=
  (∃ row, s.topologies[topology]? = some row) ∨ ∃ (email : String) (share : ShareRow), s.shares[(topology,email)]? = some share

/- What a call may do. -/
inductive Effect (s : Tables) : Op → Except TopologyError Answer → Tables → Prop where
  | idle {op : Op} {r : Except TopologyError Answer} : Effect s op r s
  | created {owner id netUuid : String} (absent : s.topologies[id]? = none) :
      Effect s (.create owner id netUuid) (.ok (.done true)) { s with topologies := s.topologies.insert id { owner, netUuid } }
  | deleted {owner id : String} {row : TopologyRow} (found : s.topologies[id]? = some row) (mine : row.owner = owner) :
      Effect s (.delete owner id) (.ok (.done true)) (s.dropped id)
  | deletedAll {owner : String} {n : Nat} : Effect s (.deleteAll owner) (.ok (.removed n)) (s.withdrawn owner)
  | bound {owner id : String} {operatorPubkey : Key} {proof : Signature} {row : TopologyRow} (found : s.topologies[id]? = some row)
      (mine : row.owner = owner) : Effect s (.setOperator owner id operatorPubkey proof) (.ok (.done true))
        { s with topologies := s.topologies.insert id { row with operatorPubkey := some operatorPubkey.toList } }
  | wired {op : Op} {topology a b : String} (allowed : editable topology s) (apart : toAsciiLowercase a ≠ toAsciiLowercase b) :
      Effect s op (.ok (.done true)) { s with edges := s.edges.insert (edgeKey topology a b) none }
  | unwired {op : Op} {topology a b : String} {yes : Bool} :
      Effect s op (.ok (.done yes)) { s with edges := s.edges.erase (edgeKey topology a b) }
  | attached {op : Op} {k : EdgeKey} {old link : Option Bytes} {yes : Bool} (found : s.edges[k]? = some old) :
      Effect s op (.ok (.done yes)) { s with edges := s.edges.insert k link }
  | shared {op : Op} {topology email : String} {share : ShareRow} {row : TopologyRow} (found : s.topologies[topology]? = some row) :
      Effect s op (.ok (.done true)) { s with shares := s.shares.insert (topology,email) share }
  | unshared {op : Op} {answer : Answer} (p : String × String → ShareRow → Bool) :
      Effect s op (.ok answer) { s with shares := (deleteWhere p s.shares).2 }
  | assigned {caller agent topology : String} (fits : s.agents[agent]? = none ∨ s.agents[agent]? = some ⟨caller,none⟩) :
      Effect s (.assign caller agent topology) (.ok .moved) (s.placed agent ⟨caller,some topology⟩)
  | revoked {caller agent : String} {owner current : String} (found : s.agents[agent]? = some ⟨owner,some current⟩)
      (may : caller = owner ∨ caller = current) : Effect s (.revoke caller agent) (.ok .moved) (s.placed agent ⟨owner,none⟩)

section Calls
variable {verify : Key → Bytes → Signature → Bool} {s : Tables}

theorem erasedTopology {id owner : String} (owned : s.topologies[id]?.any (fun t => t.owner = owner)) :
    (deleteWhere (fun k (t : TopologyRow) => k = id && t.owner = owner) s.topologies).2 = s.topologies.erase id := by
  rw [deletedRow, if_pos owned]

theorem deleteTxEnds (owner id : String) : Ends (deleteTopologyTx owner id) s (fun r m =>
    match r with
    | .ok gone => gone = s.topologies[id]?.any (fun t => t.owner = owner) ∧ m = s.droppedOf owner id
    | .error _ => True) := by
  unfold deleteTopologyTx
  refine endsExecute trivial ?_
  dsimp only
  have counted := deletedAny id (fun t : TopologyRow => decide (t.owner = owner)) s.topologies
  split
  case isTrue many =>
    have owned := counted.mp many
    refine endsExecute trivial (endsExecute trivial (endsExecute trivial (endsPure ⟨owned.symm,?_⟩)))
    rw [Tables.droppedOf, if_pos owned, erasedTopology owned]
    rfl
  case isFalse few =>
    have foreign := mt counted.mpr few
    refine endsPure ⟨((Bool.not_eq_true _).mp foreign).symm,?_⟩
    rw [Tables.droppedOf, if_neg foreign, deletedRow, if_neg foreign]

theorem deleteEnds (owner id : String) : Ends (deleteTopology owner id) s (fun r m => Effect s (.delete owner id) (r.map .done) m) := by
  refine endsTransaction .idle ?_
  refine endsBind (fun gone m => gone = s.topologies[id]?.any (fun t => t.owner = owner) ∧ m = s.droppedOf owner id)
    (endsMono (deleteTxEnds owner id) ?_) ?_
  · intro r m held
    cases r with
    | error e => exact .idle
    | ok gone => exact held
  · rintro gone m ⟨rfl,rfl⟩
    refine endsPure ?_
    cases mine : s.topologies[id]?.any (fun t => t.owner = owner) with
    | false =>
      rw [Tables.droppedOf, mine]
      exact .idle
    | true =>
      obtain ⟨row,found,owned⟩ := (Option.any_eq_true _ _).mp mine
      rw [Tables.droppedOf, mine]
      exact .deleted found (by simpa using owned)

theorem deleteAllEnds (owner : String) : Ends (deleteAllOwnedBy owner) s (fun r m => Effect s (.deleteAll owner) (r.map .removed) m) := by
  refine endsTransaction .idle (endsSelect .idle ?_)
  refine endsBind (fun _ m => m = (s.topologies.filter (fun _ t => t.owner = owner)).keys.foldl (Tables.droppedOf owner) s) ?_ ?_
  · refine endsLoop (fun before _ m => m = before.foldl (Tables.droppedOf owner) s) rfl ?_ (fun _ _ held => held)
    rintro before id after n m - rfl
    refine endsBind (fun _ m => m = (before ++ [id]).foldl (Tables.droppedOf owner) s) (endsMono (deleteTxEnds owner id) ?_)
      (fun _ _ held => endsPure held)
    intro r m held
    cases r with
    | error e => exact .idle
    | ok gone =>
      rw [List.foldl_append]
      exact held.2
  · rintro n m rfl
    exact endsExecute .idle (endsExecute .idle (endsPure .deletedAll))

theorem insertTopologyEnds {β : Type} {id : String} {row : TopologyRow} {next : Unit → Work β} {post : Except TopologyError β → Tables → Prop}
    (fails : ∀ e, post (.error (.db e)) s)
    (goes : s.topologies[id]? = none → Ends (next ()) { s with topologies := s.topologies.insert id row } post) :
    Ends (insertTopology id row >>= next) s post := by
  unfold insertTopology
  exact endsInsertUnless fails (fun absent _ => goes absent)

theorem createEnds (owner id netUuid : String) :
    Ends (createTopology owner id netUuid) s (fun r m => Effect s (.create owner id netUuid) (r.map .done) m) := by
  refine endsSelect .idle ?_
  split
  case isTrue => exact endsPure .idle
  case isFalse =>
    exact insertTopologyEnds (fun _ => .idle) (fun absent => endsPure (.created absent))

theorem setOperatorEnds (owner id : String) (operatorPubkey : Key) (proof : Signature) :
    Ends (setOperator verify owner id operatorPubkey proof) s
      (fun r m => Effect s (.setOperator owner id operatorPubkey proof) (r.map .done) m) := by
  unfold setOperator
  split
  case isFalse => exact endsPure .idle
  case isTrue =>
    refine endsExecute .idle (endsPure ?_)
    dsimp only
    rw [updatedOne, updateWhere, touchedOne]
    cases mine : s.topologies[id]?.filter (fun t => t.owner = owner) with
    | none => exact .idle
    | some row =>
      obtain ⟨found,owned⟩ := Option.filter_eq_some_iff.mp mine
      exact .bound found (by simpa using owned)

theorem ownsEnds (owner topology : String) : Ends (ownsTopology owner topology) s (fun r m =>
    m = s ∧ (r = .ok true → ∃ row, s.topologies[topology]? = some row ∧ row.owner = owner)) := by
  refine endsLast (endsSelect ⟨rfl,nofun⟩ (endsPure ⟨rfl,?_⟩))
  intro yes
  simpa [Option.any_eq_true] using yes

theorem collaboratesEnds (subject : String) (subjectEmail : Option String) (topology : String) :
    Ends (canCollaborate subject subjectEmail topology) s (fun r m => m = s ∧ (r = .ok true → editable topology s)) := by
  refine endsBind (fun mine m => m = s ∧ (mine = true → editable topology s)) (endsMono (ownsEnds subject topology) ?_) ?_
  · rintro r m ⟨rfl,owned⟩
    cases r with
    | error e => exact ⟨rfl,fun other => by cases other⟩
    | ok mine =>
      refine ⟨rfl,?_⟩
      rintro rfl
      obtain ⟨row,found,-⟩ := owned rfl
      exact .inl ⟨row,found⟩
  · rintro mine m ⟨rfl,owned⟩
    split
    case isTrue yes => exact endsPure ⟨rfl,fun _ => owned yes⟩
    case isFalse =>
      split
      case h_1 => exact endsPure ⟨rfl,fun other => by cases other⟩
      case h_2 email =>
        refine endsLast (endsSelect ⟨rfl,fun other => by cases other⟩ (endsPure ⟨rfl,?_⟩))
        intro shared
        obtain ⟨share,found⟩ := Option.isSome_iff_exists.mp (Except.ok.inj shared)
        exact .inr ⟨_,share,found⟩

/- An edit behind a check that leaves the store alone. -/
theorem checkedEnds {op : Op} {mayEdit edit : Work Bool} {topology : String}
    (checks : Ends mayEdit s (fun r m => m = s ∧ (r = .ok true → editable topology s)))
    (edits : editable topology s → Ends edit s (fun r m => Effect s op (r.map .done) m)) :
    Ends (mayEdit >>= fun allowed => if allowed then edit else pure false) s (fun r m => Effect s op (r.map .done) m) := by
  refine endsBind (fun allowed m => m = s ∧ (allowed = true → editable topology s)) (endsMono checks ?_) ?_
  · rintro r m ⟨rfl,allowed⟩
    cases r with
    | error e => exact .idle
    | ok yes => exact ⟨rfl,fun yes => allowed (congrArg _ yes)⟩
  · rintro allowed m ⟨rfl,may⟩
    split
    case isTrue yes => exact edits (may yes)
    case isFalse => exact endsPure .idle

theorem ownerChecks (owner topology : String) :
    Ends (ownsTopology owner topology) s (fun r m => m = s ∧ (r = .ok true → editable topology s)) := by
  refine endsMono (ownsEnds owner topology) ?_
  rintro r m ⟨rfl,owned⟩
  refine ⟨rfl,fun yes => ?_⟩
  obtain ⟨row,found,-⟩ := owned yes
  exact .inl ⟨row,found⟩

theorem wireEnds {op : Op} {mayEdit : Work Bool} {topology : String}
    (checks : Ends mayEdit s (fun r m => m = s ∧ (r = .ok true → editable topology s))) (a b : String) :
    Ends (wireEdge mayEdit topology a b) s (fun r m => Effect s op (r.map .done) m) := by
  unfold wireEdge
  split
  case isTrue => exact endsPure .idle
  case isFalse apart =>
    refine checkedEnds checks ?_
    intro allowed
    refine endsExecute .idle (endsPure ?_)
    dsimp only
    rw [insertOrIgnore]
    split
    case isTrue => exact .idle
    case isFalse => exact .wired allowed apart

theorem unwireEnds {op : Op} {mayEdit : Work Bool} {topology : String}
    (checks : Ends mayEdit s (fun r m => m = s ∧ (r = .ok true → editable topology s))) (a b : String) :
    Ends (unwireEdge mayEdit topology a b) s (fun r m => Effect s op (r.map .done) m) := by
  refine checkedEnds checks ?_
  intro allowed
  refine endsExecute .idle (endsPure ?_)
  dsimp only
  rw [deletedKey]
  exact .unwired

theorem setEdgeChannelEnds (subject : String) (subjectEmail : Option String) (topology a b : String) (channelId : Option ChannelId) :
    Ends (setEdgeChannel subject subjectEmail topology a b channelId) s
      (fun r m => Effect s (.setEdgeChannel subject subjectEmail topology a b channelId) (r.map .done) m) := by
  refine checkedEnds (collaboratesEnds subject subjectEmail topology) ?_
  intro allowed
  refine endsExecute .idle (endsPure ?_)
  dsimp only
  rw [updatedRow]
  cases found : s.edges[edgeKey topology a b]? with
  | none => exact .idle
  | some old => exact .attached found

theorem shareAddEnds (owner topology email : String) (now : Int) :
    Ends (shareAdd owner topology email now) s (fun r m => Effect s (.shareAdd owner topology email now) (r.map .done) m) := by
  refine endsBind (fun mine m => m = s ∧ (mine = true → ∃ row, s.topologies[topology]? = some row ∧ row.owner = owner))
    (endsMono (ownsEnds owner topology) ?_) ?_
  · rintro r m ⟨rfl,owned⟩
    cases r with
    | error e => exact .idle
    | ok mine => exact ⟨rfl,fun yes => owned (congrArg _ yes)⟩
  · rintro mine m ⟨rfl,owned⟩
    split
    case isFalse => exact endsPure .idle
    case isTrue yes =>
      obtain ⟨row,found,-⟩ := owned yes
      refine endsExecute .idle (endsPure ?_)
      dsimp only
      rw [insertOrIgnore]
      split
      case isTrue => exact .idle
      case isFalse => exact .shared found

theorem shareRemoveEnds (owner topology email : String) :
    Ends (shareRemove owner topology email) s (fun r m => Effect s (.shareRemove owner topology email) (r.map .done) m) := by
  refine checkedEnds (ownerChecks owner topology) ?_
  intro allowed
  exact endsExecute .idle (endsPure (.unshared _))

theorem assignmentOf (row : AgentRow) : row.assignment = ⟨row.owner,row.topology⟩ := by
  obtain ⟨owner,topology⟩ := row
  cases topology with
  | none => rfl
  | some current =>
    simp only [AgentRow.assignment, AgentAssignment.new, AgentAssignment.assign, ne_eq, not_true_eq_false, if_false]
    rfl

theorem assignEnds (caller agent topology : String) :
    Ends (assign caller agent topology) s (fun r m => Effect s (.assign caller agent topology) (r.map (fun _ => .moved)) m) := by
  unfold assign load
  refine endsSelect .idle ?_
  split
  case h_1 => exact endsThrow .idle
  case h_2 a placed =>
    unfold AgentAssignment.assign at placed
    split at placed <;> try contradiction
    rename_i mine
    split at placed <;> try contradiction
    rename_i free
    cases Except.ok.inj placed
    refine endsLast (endsExecute .idle (endsPure ?_))
    dsimp only
    cases found : s.agents[agent]? with
    | none => exact .assigned (.inl found)
    | some row =>
      rw [found, Option.map_some, assignmentOf, Option.getD_some] at mine free
      obtain ⟨owner,place⟩ := row
      cases not_not.mp mine
      cases free
      exact .assigned (.inr found)

theorem revokeEnds (caller agent : String) :
    Ends (revoke caller agent) s (fun r m => Effect s (.revoke caller agent) (r.map (fun _ => .moved)) m) := by
  unfold revoke load
  refine endsSelect .idle ?_
  split
  case h_1 => exact endsThrow .idle
  case h_2 a known =>
    split
    case h_1 => exact endsThrow .idle
    case h_2 next ended =>
      obtain ⟨row,found,rfl⟩ := Option.map_eq_some_iff.mp known
      rw [assignmentOf, AgentAssignment.revoke] at ended
      split at ended <;> try contradiction
      rename_i current placed
      split at ended <;> try contradiction
      rename_i may
      cases Except.ok.inj ended
      obtain ⟨owner,place⟩ := row
      cases placed
      refine endsLast (endsExecute .idle (endsPure (.revoked found ?_)))
      exact (not_and_or.mp may).imp not_not.mp not_not.mp

theorem stepEffect (verify : Key → Bytes → Signature → Bool) (s : Tables) (call : Call) :
    Effect s call.op (step verify s call).1 (step verify s call).2 := by
  obtain ⟨op,faults⟩ := call
  suffices ends : Ends (op.work verify) s (fun r m => Effect s op r m) from ends faults
  cases op with
  | create => exact endsGives (createEnds _ _ _)
  | delete => exact endsGives (deleteEnds _ _)
  | deleteAll => exact endsGives (deleteAllEnds _)
  | setOperator => exact endsGives (setOperatorEnds _ _ _ _)
  | addEdge owner topology => exact endsGives (wireEnds (ownerChecks owner topology) _ _)
  | removeEdge owner topology => exact endsGives (unwireEnds (ownerChecks owner topology) _ _)
  | addEdgeCollab subject email topology => exact endsGives (wireEnds (collaboratesEnds subject email topology) _ _)
  | removeEdgeCollab subject email topology => exact endsGives (unwireEnds (collaboratesEnds subject email topology) _ _)
  | setEdgeChannel => exact endsGives (setEdgeChannelEnds _ _ _ _ _ _)
  | shareAdd => exact endsGives (shareAddEnds _ _ _ _)
  | shareRemove => exact endsGives (shareRemoveEnds _ _ _)
  | removeShares => exact endsGives (endsLast (endsExecute .idle (endsPure (.unshared _))))
  | assign => exact endsGives (assignEnds _ _ _)
  | revoke => exact endsGives (revokeEnds _ _)

end Calls
end CadsTunnel.TopologyStore
