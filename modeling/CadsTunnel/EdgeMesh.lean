import CadsTunnel.ChannelObjects
import CadsTunnel.HexText
import CadsTunnel.Machine
import CadsTunnel.Sql

/-! The registry of the edges. The first heartbeat of an edge that proves a key binds the key
to its id, and from then on a heartbeat has to prove that key. The operator can clear a
binding; the retention job deletes the row of an edge that has been silent, and the binding
with it. -/
namespace CadsTunnel.EdgeMesh
open OrderedMap Words Sql
open Std (ExtTreeMap)

structure MeshEdge where
  peerAddr : String
  lastSeen : Int
  pubkey : Option String
  deriving DecidableEq

structure Tables where
  meshEdges : BTreeMap String MeshEdge := ∅

abbrev Work (α : Type) := Session Tables SqlError α

def edgeHeartbeatSigningBytes (id peerAddr : String) : Bytes :=
  asBytes "ct-edge-mesh-heartbeat-v1" ++ u64LE (.ofNat (asBytes id).length) ++ asBytes id ++ asBytes peerAddr

section Operations
variable (verify : Key → Bytes → Signature → Bool)

def verifyHeartbeatProof (pubkey : Key) (sig : Signature) (id peerAddr : String) : Bool :=
  verify pubkey (edgeHeartbeatSigningBytes id peerAddr) sig

def heartbeat (id peerAddr : String) (proof : Option (Key × Signature)) (now : Int) : Work Bool := do
  let existingPubkey ← select (fun s => s.meshEdges[id]?.bind MeshEdge.pubkey)
  let proofPubkeyHex := proof.map (fun p => Hex.encode p.1.toList)
  let verifies := match existingPubkey, proof with
    | some boundHex, some (pk,sig) => if Hex.encode pk.toList = boundHex then verifyHeartbeatProof verify pk sig id peerAddr else false
    | some _, none => false
    | none, some (pk,sig) => verifyHeartbeatProof verify pk sig id peerAddr
    | none, none => true
  if !verifies then pure false
  else
    execute (fun s => ((),{ s with
      meshEdges := s.meshEdges.insert id ⟨peerAddr,now,((s.meshEdges[id]?.bind MeshEdge.pubkey).or proofPubkeyHex)⟩ }))
    pure true

def rebind (id : String) : Work Bool := do
  let n ← execute (fun s =>
    let (n,rows) := updateWhere (fun k _ => k = id) (fun e => { e with pubkey := none }) s.meshEdges
    (n,{ s with meshEdges := rows }))
  pure (n > 0)

def pruneStaleEdges (since : Int) : Work Nat :=
  execute (fun s =>
    let (n,rows) := deleteWhere (fun _ e => e.lastSeen < since) s.meshEdges
    (n,{ s with meshEdges := rows }))

inductive Op where
  | heartbeat (id peerAddr : String) (proof : Option (Key × Signature)) (now : Int)
  | rebind (id : String)
  | prune (since : Int)

inductive Answer where
  | accepted (yes : Bool)
  | cleared (found : Bool)
  | pruned (n : Nat)
  deriving DecidableEq

structure Call where
  op : Op
  faults : List Bool := []

def Op.work : Op → Work Answer
  | .heartbeat id peerAddr proof now => do
    let yes ← EdgeMesh.heartbeat verify id peerAddr proof now
    pure (.accepted yes)
  | .rebind id => do
    let found ← EdgeMesh.rebind id
    pure (.cleared found)
  | .prune since => do
    let n ← pruneStaleEdges since
    pure (.pruned n)

def step (s : Tables) (call : Call) : Except SqlError Answer × Tables := perform (call.op.work verify) s call.faults

def run (calls : List Call) : Tables := Machine.run (step verify) {} calls

/- What a call may do. -/
inductive Effect (s : Tables) : Op → Except SqlError Answer → Tables → Prop where
  | idle {op : Op} {r : Except SqlError Answer} (refused : r ≠ .ok (.accepted true)) : Effect s op r s
  | legacy {id peerAddr : String} {now : Int} (unbound : s.meshEdges[id]?.bind MeshEdge.pubkey = none) :
      Effect s (.heartbeat id peerAddr none now) (.ok (.accepted true)) { s with meshEdges := s.meshEdges.insert id ⟨peerAddr,now,none⟩ }
  | proved {id peerAddr : String} {key : Key} {sig : Signature} {now : Int} (verified : verifyHeartbeatProof verify key sig id peerAddr)
      (fits : ∀ boundHex, s.meshEdges[id]?.bind MeshEdge.pubkey = some boundHex → boundHex = Hex.encode key.toList) :
      Effect s (.heartbeat id peerAddr (some (key,sig)) now) (.ok (.accepted true))
        { s with meshEdges := s.meshEdges.insert id ⟨peerAddr,now,some (Hex.encode key.toList)⟩ }
  | rebound {id : String} {found : Bool} : Effect s (.rebind id) (.ok (.cleared found))
      { s with meshEdges := (updateWhere (fun k _ => k = id) (fun e => { e with pubkey := none }) s.meshEdges).2 }
  | pruned {since : Int} {n : Nat} : Effect s (.prune since) (.ok (.pruned n))
      { s with meshEdges := (deleteWhere (fun _ e => e.lastSeen < since) s.meshEdges).2 }

end Operations
section Calls
variable {verify : Key → Bytes → Signature → Bool} {s m : Tables}

theorem heartbeatEnds (id peerAddr : String) (proof : Option (Key × Signature)) (now : Int) :
    Ends (heartbeat verify id peerAddr proof now) s
      (fun r m => Effect verify s (.heartbeat id peerAddr proof now) (r.map .accepted) m) := by
  unfold heartbeat
  refine endsSelect (.idle nofun) ?_
  dsimp only
  cases existing : s.meshEdges[id]?.bind MeshEdge.pubkey with
  | none =>
    cases proof with
    | none =>
      refine endsExecute (.idle nofun) (endsPure ?_)
      rw [existing]
      exact .legacy existing
    | some proof =>
      obtain ⟨key,sig⟩ := proof
      dsimp only
      split
      case isTrue => exact endsPure (.idle nofun)
      case isFalse verified =>
        refine endsExecute (.idle nofun) (endsPure ?_)
        rw [existing]
        exact .proved (by simpa using verified) (fun _ bound => absurd (existing.symm.trans bound) nofun)
  | some boundHex =>
    cases proof with
    | none => exact endsPure (.idle nofun)
    | some proof =>
      obtain ⟨key,sig⟩ := proof
      dsimp only
      by_cases same : Hex.encode key.toList = boundHex
      · simp only [if_pos same]
        split
        case isTrue => exact endsPure (.idle nofun)
        case isFalse verified =>
          refine endsExecute (.idle nofun) (endsPure ?_)
          rw [existing, ← same]
          refine .proved (by simpa using verified) ?_
          intro bound here
          rw [existing] at here
          exact (Option.some.inj here).symm.trans same.symm
      · simp only [if_neg same]
        exact endsPure (.idle nofun)

theorem stepEffect (verify : Key → Bytes → Signature → Bool) (s : Tables) (call : Call) :
    Effect verify s call.op (step verify s call).1 (step verify s call).2 := by
  obtain ⟨op,faults⟩ := call
  suffices ends : Ends (op.work verify) s (fun r m => Effect verify s op r m) from ends faults
  cases op with
  | heartbeat => exact endsGives (heartbeatEnds _ _ _ _)
  | rebind => exact endsGives (endsExecute (.idle nofun) (endsPure .rebound))
  | prune => exact endsGives (endsLast (endsExecute (.idle nofun) (endsPure .pruned)))

theorem encodeKey {key key' : Key} (same : Hex.encode key.toList = Hex.encode key'.toList) : key = key' := by
  have read := Hex.decodeArrayEncode key
  rw [same, Hex.decodeArrayEncode] at read
  exact (Option.some.inj read).symm

/- The address under which an edge is reached, and the key its id is bound to. -/
def addressOf (id : String) (s : Tables) : Option String := s.meshEdges[id]?.map MeshEdge.peerAddr

def boundTo (id : String) (s : Tables) : Option String := s.meshEdges[id]?.bind MeshEdge.pubkey

/- The retention job deletes no row with a key bound. -/
def KeepsBound (s : Tables) (call : Call) : Prop :=
  ∀ since, call.op = .prune since → ∀ (id : String) (e : MeshEdge), s.meshEdges[id]? = some e → e.lastSeen < since → e.pubkey = none

/- A heartbeat that proves a key, and that changes the address. -/
def Signed (verify : Key → Bytes → Signature → Bool) (id : String) (key : Key) (m : Tables) (op : Op) : Prop :=
  ∃ peerAddr sig now, op = .heartbeat id peerAddr (some (key,sig)) now ∧ verifyHeartbeatProof verify key sig id peerAddr ∧
    m.meshEdges[id]? = some ⟨peerAddr,now,some (Hex.encode key.toList)⟩

/- What one call does to an id with a key: the key stays, and the address changes only by a heartbeat that proves it. -/
theorem boundEffect {op : Op} {r : Except SqlError Answer} (effect : Effect verify s op r m) {id : String} {key : Key}
    (bound : boundTo id s = some (Hex.encode key.toList)) (notRebind : op ≠ .rebind id)
    (keeps : ∀ since, op = .prune since → ∀ (id : String) (e : MeshEdge), s.meshEdges[id]? = some e → e.lastSeen < since → e.pubkey = none) :
    boundTo id m = some (Hex.encode key.toList) ∧ (addressOf id m = addressOf id s ∨ Signed verify id key m op) := by
  obtain ⟨e,found,held⟩ := Option.bind_eq_some_iff.mp bound
  cases effect with
  | idle => exact ⟨bound,.inl rfl⟩
  | @legacy other peerAddr now unbound =>
    have apart : id ≠ other := by
      rintro rfl
      rw [found, Option.bind_some, held] at unbound
      contradiction
    simp only [boundTo, addressOf, lookupInsert, if_neg apart]
    exact ⟨bound,.inl trivial⟩
  | @proved other peerAddr key' sig now verified fits =>
    by_cases same : id = other
    · subst same
      cases encodeKey (fits _ bound)
      refine ⟨?_,.inr ⟨peerAddr,sig,now,rfl,verified,?_⟩⟩
      · simp [boundTo]
      · rw [lookupInsert, if_pos rfl]
    · simp only [boundTo, addressOf, lookupInsert, if_neg same]
      exact ⟨bound,.inl trivial⟩
  | @rebound other =>
    have apart : id ≠ other := fun same => notRebind (same ▸ rfl)
    simp only [boundTo, addressOf, lookupUpdated, found, Option.map_some, Option.bind_some, decide_eq_true_eq, if_neg apart]
    exact ⟨held,.inl trivial⟩
  | @pruned since =>
    have fresh : ¬e.lastSeen < since := by
      intro stale
      rw [keeps since rfl id e found stale] at held
      contradiction
    simp only [boundTo, addressOf, lookupDeleted, found, Option.filter_some, fresh, decide_false, Bool.not_false, if_true, Option.bind_some]
    exact ⟨held,.inl trivial⟩

/- The first heartbeat with a proof binds its key. -/
theorem firstBinds {op : Op} {id peerAddr : String} {key : Key} {sig : Signature} {now : Int}
    (effect : Effect verify s op (.ok (.accepted true)) m) (beat : op = .heartbeat id peerAddr (some (key,sig)) now) :
    boundTo id m = some (Hex.encode key.toList) := by
  cases effect with
  | idle refused => exact absurd rfl refused
  | legacy => cases beat
  | proved =>
    cases beat
    simp [boundTo]

theorem rejectedKept {op : Op} {r : Except SqlError Answer} (effect : Effect verify s op r m) {id peerAddr : String}
    {proof : Option (Key × Signature)} {now : Int} (beat : op = .heartbeat id peerAddr proof now) (rejected : r ≠ .ok (.accepted true)) : m = s := by
  cases effect with
  | idle => rfl
  | legacy => exact absurd rfl rejected
  | proved => exact absurd rfl rejected
  | rebound => cases beat
  | pruned => cases beat

theorem boundRun (verify : Key → Bytes → Signature → Bool) {id : String} {key : Key} (calls : List Call) (s : Tables)
    (bound : boundTo id s = some (Hex.encode key.toList)) (notRebind : ∀ call ∈ calls, call.op ≠ .rebind id)
    (keeps : Machine.along (step verify) KeepsBound s calls) :
    boundTo id (Machine.run (step verify) s calls) = some (Hex.encode key.toList) := by
  induction calls generalizing s with
  | nil => exact bound
  | cons call calls ih =>
    have next := (boundEffect (stepEffect verify s call) bound (notRebind call (by simp)) keeps.1).1
    exact ih _ next (fun call mem => notRebind call (by simp [mem])) keeps.2

/- A heartbeat that is not accepted changes nothing; and once a heartbeat has bound a key to an
id, the address of the id is changed, until it is rebound, only by heartbeats that prove it. -/
def IdentityKept (verify : Key → Bytes → Signature → Bool) (calls : List Call) (call : Call) : Prop :=
  (∀ id peerAddr proof now, call.op = .heartbeat id peerAddr proof now → (step verify (run verify calls) call).1 ≠ .ok (.accepted true) →
    (step verify (run verify calls) call).2 = run verify calls) ∧
  ∀ before first after id peerAddr key sig now, calls = before ++ first :: after → first.op = .heartbeat id peerAddr (some (key,sig)) now →
    boundTo id (run verify before) = none → (step verify (run verify before) first).1 = .ok (.accepted true) →
    (∀ later ∈ after ++ [call], later.op ≠ .rebind id) →
    addressOf id (step verify (run verify calls) call).2 ≠ addressOf id (run verify calls) →
    Signed verify id key (step verify (run verify calls) call).2 call.op

/- In every run in which the retention job deletes no row with a key bound. -/
theorem edgeIdentityKept (verify : Key → Bytes → Signature → Bool) (calls : List Call) (call : Call)
    (keeps : Machine.along (step verify) KeepsBound {} (calls ++ [call])) : IdentityKept verify calls call := by
  refine ⟨fun id peerAddr proof now beat rejected => rejectedKept (stepEffect verify _ call) beat rejected,?_⟩
  rintro before first after id peerAddr key sig now rfl beat - accepted notRebind changed
  obtain ⟨keepsCalls,keepsLast⟩ := Machine.alongAppend.mp keeps
  obtain ⟨-,keepsAfter⟩ := Machine.alongAppend.mp keepsCalls
  have effect := stepEffect verify (run verify before) first
  rw [accepted] at effect
  have bound := firstBinds effect beat
  have held := boundRun verify after _ bound (fun later mem => notRebind later (by simp [mem])) keepsAfter.2
  have here : boundTo id (run verify (before ++ first :: after)) = some (Hex.encode key.toList) := by
    rw [run, Machine.runAppend]
    exact held
  exact ((boundEffect (stepEffect verify _ call) here (notRebind call (by simp)) keepsLast.1).2).resolve_left changed

def beats : List Call := [⟨.heartbeat "edge" "here" (some (.replicate 32 1,.replicate 64 2)) 10,[]⟩]

theorem edgeIdentityWitness :
    IdentityKept (fun _ _ _ => true) beats ⟨.heartbeat "edge" "there" (some (.replicate 32 1,.replicate 64 2)) 20,[]⟩ := by
  refine edgeIdentityKept _ beats _ ⟨?_,?_,trivial⟩
  · rintro since ⟨⟩
  · rintro since ⟨⟩

/- The row of a silent edge is deleted, and whoever comes next sends its traffic elsewhere. -/
theorem pruneForgets : ¬IdentityKept (fun _ _ _ => true) (beats ++ [⟨.prune 15,[]⟩]) ⟨.heartbeat "edge" "elsewhere" none 20,[]⟩ := by
  rintro ⟨-,kept⟩
  have changed : addressOf "edge" (step (fun _ _ _ => true) (run (fun _ _ _ => true) (beats ++ [⟨.prune 15,[]⟩]))
      ⟨.heartbeat "edge" "elsewhere" none 20,[]⟩).2 ≠ addressOf "edge" (run (fun _ _ _ => true) (beats ++ [⟨.prune 15,[]⟩])) := by
    decide +kernel
  obtain ⟨peerAddr,sig,now,beat,-⟩ := kept [] _ [⟨.prune 15,[]⟩] "edge" "here" (.replicate 32 1) (.replicate 64 2) 10 rfl rfl
    (by decide +kernel) (by decide +kernel) (by simp) changed
  cases beat

end Calls
end CadsTunnel.EdgeMesh
