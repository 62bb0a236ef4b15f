import CadsTunnel.LogThrottle

/-! The violations of the agent keys: counted per tunnel and reason, and written to the log by
one line each, unless the throttle holds the line back. -/
namespace CadsTunnel.Edge
open OrderedMap Words
open Std (ExtTreeMap TransOrd LawfulEqOrd)

instance agentKeyReasonOrd : Ord AgentKeyReason := ⟨compareOn AgentKeyReason.ctorIdx⟩

instance agentKeyReasonTransOrd : TransOrd AgentKeyReason := inferInstanceAs (Std.TransCmp (compareOn AgentKeyReason.ctorIdx))

instance agentKeyReasonLawfulEqOrd : LawfulEqOrd AgentKeyReason where
  eq_of_compare {a b} same := by
    have index : a.ctorIdx = b.ctorIdx := Nat.compare_eq_eq.mp same
    cases a <;> cases b <;> first | rfl | exact absurd index (by decide)

def AgentKeyMode.asStr : AgentKeyMode → String
  | .log => "log"
  | .enforce => "enforce"

def AgentKeyReason.asStr : AgentKeyReason → String
  | .unproven => "unproven"
  | .unprovenBesideProven => "unproven_beside_proven"
  | .secondUnproven => "second_unproven"
  | .unprovenTcp => "unproven_tcp"
  | .foreignKey => "foreign_key"
  | .staleBinding => "stale_binding"
  | .bindingToken => "binding_token"
  | .badBinding => "bad_binding"
  | .badProof => "bad_proof"
  | .expired => "expired"
  | .timeout => "timeout"
  | .oversize => "oversize"
  | .evictedOnEnforce => "evicted_on_enforce"
  | .revoked => "revoked"

inductive AgentKeyAction where
  | admitted
  | refused
  | evicted
  | repinned
  deriving DecidableEq, Repr

def AgentKeyAction.asStr : AgentKeyAction → String
  | .admitted => "admitted"
  | .refused => "refused"
  | .evicted => "evicted"
  | .repinned => "repinned"

def ipText : IpAddr → String
  | .v4 octets => SocketText.ipv4Text octets
  | .v6 segments => SocketText.ipv6Text segments

def agentKeyHashPrefix (tokenHash : Key) : String := Hex.encode (tokenHash.toList.take 4)

def agentKeyViolationLine (tokenHash : Key) (reason : AgentKeyReason) (action : AgentKeyAction) (mode : AgentKeyMode) (remote : Option IpAddr) : String :=
  "ct-edge: agent_key_violation mode=" ++ mode.asStr ++ " action=" ++ action.asStr ++ " reason=" ++ reason.asStr ++
    " tunnel=" ++ agentKeyHashPrefix tokenHash ++ " remote=" ++ (remote.map ipText).getD "-"

def agentKeyMaxTracked : Nat := 1024
def agentKeyLogWindowSecs : UInt64 := 300
def agentKeyLogTopN : Nat := 5

structure AgentKeyTunnelCounts where
  reasons : HashMap AgentKeyReason UInt64 := ∅
  proofsAdmitted : UInt64 := 0

/- The part of the edge state that the violations are kept in. -/
structure AgentKeyLog where
  counts : HashMap Key AgentKeyTunnelCounts := ∅
  untracked : UInt64 := 0
  logThrottle : WindowLogThrottle (Key × AgentKeyReason) :=
    { windowSecs := agentKeyLogWindowSecs, maxTracked := agentKeyMaxTracked, topN := agentKeyLogTopN }
  logLines : UInt64 := 0

structure Violation where
  now : UInt64
  token : RoutingToken
  reason : AgentKeyReason
  action : AgentKeyAction
  mode : AgentKeyMode
  remote : Option IpAddr
  deriving DecidableEq, Repr

namespace AgentKeyLog
variable (agentKeyTokenHash : RoutingToken → Key)

def countViolation (s : AgentKeyLog) (hash : Key) (reason : AgentKeyReason) : AgentKeyLog :=
  if agentKeyMaxTracked ≤ s.counts.size ∧ !s.counts.contains hash then { s with untracked := s.untracked + 1 }
  else
    let entry := s.counts[hash]?.getD {}
    let slot := saturatingAdd (entry.reasons[reason]?.getD 0) 1
    { s with counts := s.counts.insert hash { entry with reasons := entry.reasons.insert reason slot } }

/- The line that is written, if one is. -/
def noteAgentKeyViolation (s : AgentKeyLog) (v : Violation) : Option String × AgentKeyLog :=
  let hash := agentKeyTokenHash v.token
  let s := s.countViolation hash v.reason
  let (decision,throttle) := s.logThrottle.note v.now (hash,v.reason)
  let s := { s with logThrottle := throttle }
  if decision = .logFull then (some (agentKeyViolationLine hash v.reason v.action v.mode v.remote),{ s with logLines := s.logLines + 1 })
  else (none,s)

def run (calls : List Violation) : AgentKeyLog := calls.foldl (fun s v => (s.noteAgentKeyViolation agentKeyTokenHash v).2) {}

/- The line of the `i`-th violation. -/
def line (calls : List Violation) (i : Nat) : Option String :=
  calls[i]?.bind fun v => ((run agentKeyTokenHash (calls.take i)).noteAgentKeyViolation agentKeyTokenHash v).1

/- What the throttle is asked for a violation. -/
def occurrence (v : Violation) : UInt64 × (Key × AgentKeyReason) := (v.now,(agentKeyTokenHash v.token,v.reason))

section Runs
variable {agentKeyTokenHash} {calls : List Violation} {i : Nat}

theorem countThrottle (s : AgentKeyLog) (hash : Key) (reason : AgentKeyReason) : (s.countViolation hash reason).logThrottle = s.logThrottle := by
  unfold countViolation
  split <;> rfl

theorem noteThrottle (s : AgentKeyLog) (v : Violation) :
    (s.noteAgentKeyViolation agentKeyTokenHash v).2.logThrottle =
      (s.logThrottle.note (occurrence agentKeyTokenHash v).1 (occurrence agentKeyTokenHash v).2).2 := by
  unfold noteAgentKeyViolation
  dsimp only
  split <;> exact congrArg (fun t => (WindowLogThrottle.note t v.now (agentKeyTokenHash v.token,v.reason)).2) (countThrottle s _ _)

theorem noteLine (s : AgentKeyLog) (v : Violation) :
    (s.noteAgentKeyViolation agentKeyTokenHash v).1 =
      if (s.logThrottle.note (occurrence agentKeyTokenHash v).1 (occurrence agentKeyTokenHash v).2).1 = .logFull then
        some (agentKeyViolationLine (agentKeyTokenHash v.token) v.reason v.action v.mode v.remote) else none := by
  unfold noteAgentKeyViolation
  dsimp only
  rw [countThrottle]
  unfold occurrence
  split <;> rfl

theorem runThrottle (calls : List Violation) :
    (run agentKeyTokenHash calls).logThrottle =
      WindowLogThrottle.after WindowLogThrottle.note (({} : AgentKeyLog).logThrottle) (calls.map (occurrence agentKeyTokenHash)) := by
  induction calls using List.reverseRecOn with
  | nil => rfl
  | append_singleton front v ih =>
    rw [run, List.foldl_append, List.foldl_cons, List.foldl_nil, ← run, noteThrottle, ih, List.map_append, List.map_singleton,
      WindowLogThrottle.afterNext]

theorem lineIff : (line agentKeyTokenHash calls i).isSome ↔
    WindowLogThrottle.decision WindowLogThrottle.note (({} : AgentKeyLog).logThrottle) (calls.map (occurrence agentKeyTokenHash)) i = some .logFull := by
  rw [line, WindowLogThrottle.decision, List.getElem?_map, ← List.map_take, ← runThrottle]
  cases calls[i]? with
  | none => simp
  | some v =>
    rw [Option.bind_some, Option.map_some, Option.map_some, noteLine, Option.some_inj]
    split <;> simp_all

theorem spokenIff (ordered : calls.Pairwise (fun a b => a.now ≤ b.now))
    (few : (calls.map (fun v => (agentKeyTokenHash v.token,v.reason))).toFinset.card < agentKeyMaxTracked) :
    Spoken agentKeyLogWindowSecs.toNat (calls.map (occurrence agentKeyTokenHash)) (fun i => (line agentKeyTokenHash calls i).isSome)
      (fun i => (run agentKeyTokenHash (calls.take (i + 1))).logThrottle.windowStart) ↔
    ∀ (i j : Nat) (now earlier : UInt64) key, j < i → (calls.map (occurrence agentKeyTokenHash))[j]? = some (earlier,key) →
      (calls.map (occurrence agentKeyTokenHash))[i]? = some (now,key) → now.toNat - earlier.toNat < agentKeyLogWindowSecs.toNat := by
  have few' : ((calls.map (occurrence agentKeyTokenHash)).map Prod.snd).toFinset.card < (({} : AgentKeyLog).logThrottle).maxTracked := by
    rw [List.map_map]
    exact few
  exact spokenOnceIff (List.pairwise_map.mpr ordered) (fun i now key here => lineIff.trans (WindowLogThrottle.firstWritten _ rfl few' here))

end Runs

/- The log of the violations is as it should be just as long as no key of theirs is back after the window. -/
theorem violationsSpoken (agentKeyTokenHash : RoutingToken → Key) (calls : List Violation) (ordered : calls.Pairwise (fun a b => a.now ≤ b.now))
    (few : (calls.map (fun v => (agentKeyTokenHash v.token,v.reason))).toFinset.card < agentKeyMaxTracked) :
    Spoken agentKeyLogWindowSecs.toNat (calls.map (occurrence agentKeyTokenHash)) (fun i => (line agentKeyTokenHash calls i).isSome)
      (fun i => (run agentKeyTokenHash (calls.take (i + 1))).logThrottle.windowStart) ↔
    ∀ (i j : Nat) v w, j < i → calls[j]? = some w → calls[i]? = some v → agentKeyTokenHash w.token = agentKeyTokenHash v.token → w.reason = v.reason →
      v.now.toNat - w.now.toNat < agentKeyLogWindowSecs.toNat := by
  rw [spokenIff ordered few]
  constructor
  · intro close i j v w before old new hash reason
    refine close i j v.now w.now (agentKeyTokenHash v.token,v.reason) before ?_ ?_
    · rw [List.getElem?_map, old, Option.map_some, occurrence, hash, reason]
    · rw [List.getElem?_map, new, Option.map_some, occurrence]
  · intro close i j now earlier key before old new
    rw [List.getElem?_map] at old new
    obtain ⟨w,old',same⟩ := Option.map_eq_some_iff.mp old
    obtain ⟨v,new',same'⟩ := Option.map_eq_some_iff.mp new
    obtain ⟨rfl,rfl⟩ := Prod.mk.inj same
    obtain ⟨rfl,keys⟩ := Prod.mk.inj same'
    obtain ⟨hash,reason⟩ := Prod.mk.inj keys
    exact close i j v w before old' new' hash.symm reason.symm

/- The token of zeros, its hash, and a violation of its tunnel. -/
def zeroToken : RoutingToken := .replicate 32 0

def zeroTokenHash : Key := ⟨#[0x66,0x68,0x7a,0xad,0xf8,0x62,0xbd,0x77,0x6c,0x8f,0xc1,0x8b,0x8e,0x9f,0x8e,0x20,
  0x08,0x97,0x14,0x85,0x6e,0xe2,0x33,0xb3,0x90,0x2a,0x59,0x1d,0x0d,0x5f,0x29,0x25],rfl⟩

def foreignKeyAt (now : UInt64) : Violation := ⟨now,zeroToken,.foreignKey,.admitted,.log,none⟩

theorem violationsSpokenOnce : Spoken 300 ([foreignKeyAt 1000,foreignKeyAt 1299].map (occurrence fun _ => zeroTokenHash))
    (fun i => (line (fun _ => zeroTokenHash) [foreignKeyAt 1000,foreignKeyAt 1299] i).isSome)
    (fun i => (run (fun _ => zeroTokenHash) ([foreignKeyAt 1000,foreignKeyAt 1299].take (i + 1))).logThrottle.windowStart) := by
  refine (violationsSpoken _ _ (by decide) (lt_of_le_of_lt (List.toFinset_card_le _) (by decide))).mpr ?_
  intro i j v w _ old new _ _
  have times : ∀ x ∈ [foreignKeyAt 1000,foreignKeyAt 1299], 1000 ≤ x.now.toNat ∧ x.now.toNat ≤ 1299 := by decide
  have earliest := (times w (List.mem_of_getElem? old)).1
  have latest := (times v (List.mem_of_getElem? new)).2
  change v.now.toNat - w.now.toNat < 300
  omega

/- The second line of a key is never written. -/
theorem violationUnspoken : ¬Spoken 300 ([foreignKeyAt 1000,foreignKeyAt 1300].map (occurrence fun _ => zeroTokenHash))
    (fun i => (line (fun _ => zeroTokenHash) [foreignKeyAt 1000,foreignKeyAt 1300] i).isSome)
    (fun i => (run (fun _ => zeroTokenHash) ([foreignKeyAt 1000,foreignKeyAt 1300].take (i + 1))).logThrottle.windowStart) := by
  intro spoken
  have close := (spokenIff (by decide) (lt_of_le_of_lt (List.toFinset_card_le _) (by decide))).mp spoken
  exact absurd (close 1 0 1300 1000 (zeroTokenHash,.foreignKey) (by decide) rfl rfl) (by decide)

end AgentKeyLog
end CadsTunnel.Edge
