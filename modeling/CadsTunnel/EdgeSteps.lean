import CadsTunnel.EdgeTunnels

/-! The registry as a state machine: one step for each public function, and one relation
that says all a step can do to the tunnel of a token. Every invariant of runs is proved
from that relation, not from the functions. -/
namespace CadsTunnel.Edge
open OrderedMap Words
open Std (ExtTreeMap ExtTreeSet)

/- The calls the registry serves, with what each reads of the clock and of the world. `dropReceiver` and `historyFails` are
steps of the world: an agent's task goes away, the store breaks or recovers. -/
inductive Op (H : Type) where
  | register (token : RoutingToken) (handle : H) (now : UInt64)
  | registerWithCandidate (token : RoutingToken) (handle : H) (candidate : SocketAddr) (now : UInt64)
  | registerUnlessRevoked (token : RoutingToken) (handle : H) (now : UInt64)
  | registerWithCandidateUnlessRevoked (token : RoutingToken) (handle : H) (candidate : SocketAddr) (now : UInt64)
  | registerWithCandidateChecked (token : RoutingToken) (handle : H) (candidate : SocketAddr) (mode : AgentKeyMode)
      (proof : Option ProvenKey) (now : UInt64)
  | parkTcpAgent (token : RoutingToken) (now : UInt64)
  | parkTcpAgentUnlessRevoked (token : RoutingToken) (now : UInt64)
  | parkTcpAgentChecked (token : RoutingToken) (mode : AgentKeyMode) (now : UInt64)
  | deliverToTcpAgentDraining (token : RoutingToken) (late : Nat → Bool)
  | reapDeadTcpParks
  | dropReceiver (slot : Nat)
  | registerHost (host : String) (token : RoutingToken)
  | setCertTier (host : String) (gelb : Bool)
  | requireHostAuth
  | authorizeHost (host : String) (token : RoutingToken)
  | unauthorizeHost (host : String)
  | advertiseDirect (token : RoutingToken) (addr : SocketAddr) (cert : Bytes) (order : List RoutingToken)
  | removeRegistration (token : RoutingToken) (id : Nat) (now : UInt64)
  | remove (token : RoutingToken) (now : UInt64)
  | revokeToken (token : RoutingToken) (now : UInt64)
  | seedRevokedTokens (tokens : List RoutingToken)
  | setAgentKeyPolicy (next : AgentKeyPolicy)
  | reloadAgentKeyPolicyFromFile (file : Except String String)
  | setAdminToken (token : Key)
  | noteRelay (token : RoutingToken) (clientToAgent agentToClient now : UInt64)
  | flushTunnelHistory (now idleEvictSecs : UInt64)
  | ageOutStaleHistory (now maxAgeSecs : UInt64)
  | setTunnelHistory (history : TunnelHistory)
  | historyFails (failing : Bool)

namespace EdgeState
variable {H : Type} (agentKeyTokenHash : RoutingToken → Key)

def apply (s : EdgeState H) : Op H → EdgeState H
  | .register token handle now => (s.register token handle now).2
  | .registerWithCandidate token handle candidate now => (s.registerWithCandidate token handle candidate now).2
  | .registerUnlessRevoked token handle now => (s.registerUnlessRevoked token handle now).2
  | .registerWithCandidateUnlessRevoked token handle candidate now =>
    (s.registerWithCandidateUnlessRevoked token handle candidate now).2
  | .registerWithCandidateChecked token handle candidate mode proof now =>
    (s.registerWithCandidateChecked agentKeyTokenHash token handle candidate mode proof now).2
  | .parkTcpAgent token now => (s.parkTcpAgent token now).2
  | .parkTcpAgentUnlessRevoked token now => (s.parkTcpAgentUnlessRevoked token now).2
  | .parkTcpAgentChecked token mode now => (s.parkTcpAgentChecked agentKeyTokenHash token mode now).2
  | .deliverToTcpAgentDraining token late => { s with fallback := (s.fallback.deliverToTcpAgentDraining token late).2 }
  | .reapDeadTcpParks => { s with fallback := s.fallback.reapDeadTcpParks.2 }
  | .dropReceiver slot => { s with fallback := s.fallback.dropReceiver slot }
  | .registerHost host token => (s.registerHost host token).2
  | .setCertTier host gelb => { s with hostRoutes := s.hostRoutes.setCertTier host gelb }
  | .requireHostAuth => { s with hostRoutes := s.hostRoutes.requireHostAuth }
  | .authorizeHost host token => { s with hostRoutes := s.hostRoutes.authorizeHost host token }
  | .unauthorizeHost host => { s with hostRoutes := s.hostRoutes.unauthorizeHost host }
  | .advertiseDirect token addr cert order => (s.advertiseDirect token addr cert order).2
  | .removeRegistration token id now => s.removeRegistration token id now
  | .remove token now => s.remove token now
  | .revokeToken token now => s.revokeToken token now
  | .seedRevokedTokens tokens => s.seedRevokedTokens tokens
  | .setAgentKeyPolicy next => (s.setAgentKeyPolicy agentKeyTokenHash next).2
  | .reloadAgentKeyPolicyFromFile file => (s.reloadAgentKeyPolicyFromFile agentKeyTokenHash file).2
  | .setAdminToken token => { s with adminToken := some token }
  | .noteRelay token clientToAgent agentToClient now =>
    { s with sessions := s.sessions.noteRelay token clientToAgent agentToClient now }
  | .flushTunnelHistory now idleEvictSecs => (s.flushTunnelHistory now idleEvictSecs).2
  | .ageOutStaleHistory now maxAgeSecs => (s.ageOutStaleHistory now maxAgeSecs).2
  | .setTunnelHistory history => { s with sessions := { s.sessions with tunnelHistory := some history } }
  | .historyFails failing => { s with sessions := { s.sessions with
      tunnelHistory := s.sessions.tunnelHistory.map (fun history => { history with failing := failing }) } }

def step (s : EdgeState H) (op : Op H) : Unit × EdgeState H := ((),s.apply agentKeyTokenHash op)

def run (s : EdgeState H) (ops : List (Op H)) : EdgeState H := Machine.run (step agentKeyTokenHash) s ops

/- The hash of the token 0101..01, for runs that name no other. -/
def sampleHash : RoutingToken → Key := fun _ =>
  #v[114,205,110,132,34,196,7,251,109,9,134,144,241,19,11,125,237,126,194,247,245,225,211,11,217,213,33,240,21,54,55,147]

end EdgeState

/- The steps that look at the revoked set before they add anything. -/
def Op.guarded {H : Type} : Op H → Bool
  | .register .. | .registerWithCandidate .. | .parkTcpAgent .. | .seedRevokedTokens .. => false
  | _ => true

/- The steps that judge what they add by the key policy. -/
def Op.checked {H : Type} : Op H → Bool
  | .register .. | .registerWithCandidate .. | .registerUnlessRevoked .. | .registerWithCandidateUnlessRevoked ..
  | .parkTcpAgent .. | .parkTcpAgentUnlessRevoked .. => false
  | _ => true

namespace EdgeState
variable {H : Type} (agentKeyTokenHash : RoutingToken → Key)

/- All that one step can do to the tunnel of a token. -/
inductive Effect (s : EdgeState H) (op : Op H) (token : RoutingToken) : Tunnel H → Prop where
  | same : Effect s op token (s.tunnel token)
  | registered {handle : H} {now : UInt64} {candidate : Option SocketAddr} (unchecked : op.checked = false)
      (valid : op.guarded → s.isRevoked token = false) :
      Effect s op token { (s.tunnel token).registered s.registrations.nextReg handle now with candidate := candidate }
  | admitted {mode : AgentKeyMode} {handle : H} {candidate : SocketAddr} {proof : Option ProvenKey} {now : UInt64} {t : Tunnel H}
      (call : op = .registerWithCandidateChecked token handle candidate mode proof now)
      (valid : s.isRevoked token = false)
      (admission : Admission (s.agentKeyModeLocked agentKeyTokenHash token mode = .enforce) s.registrations.nextReg handle
        candidate proof now (s.tunnel token) t) : Effect s op token t
  | parked {now : UInt64} (lenient : op.checked → s.agentKeyModeFor agentKeyTokenHash token = .log)
      (valid : op.guarded → s.isRevoked token = false) :
      Effect s op token ((s.tunnel token).withParked s.fallback.nextSlot now)
  | unparked {left : List Nat} (fewer : left.Sublist (s.tunnel token).parked) :
      Effect s op token { s.tunnel token with parked := left }
  | hosts {hosts : HashSet String} (changed : hosts ≠ (s.tunnel token).hosts → s.isRevoked token = false) :
      Effect s op token { s.tunnel token with hosts := hosts }
  | direct {direct : Option (SocketAddr × Bytes)}
      (changed : direct = (s.tunnel token).direct ∨ direct = none ∨ s.isRevoked token = false) :
      Effect s op token { s.tunnel token with direct := direct }
  | dropped {id : Nat} : Effect s op token (((s.tunnel token).forget id).dropped id)
  | torn : Effect s op token (s.tunnel token).torn
  | revoked {now : UInt64} (call : op = .revokeToken token now) :
      Effect s op token { (s.tunnel token).torn with revoked := true }
  | seeded {revoked : Bool} (unguarded : op.guarded = false) : Effect s op token { s.tunnel token with revoked := revoked }
  | enforced {next : AgentKeyPolicy} (switch : (s.apply agentKeyTokenHash op).agentKeyPolicy = next)
      (newly : s.newlyEnforced agentKeyTokenHash next token) : Effect s op token (s.tunnel token).enforced
  | swept {since : Option UInt64} (kept : s.isLive token → since = (s.tunnel token).since) :
      Effect s op token { s.tunnel token with since := since }

/- What each eviction of a switch keeps, the switch keeps. -/
theorem policyInvariant (s : EdgeState H) (next : AgentKeyPolicy) (inv : EdgeState H → Prop)
    (start : inv { s with agentKeyPolicy := next })
    (evicts : ∀ m token, s.newlyEnforced agentKeyTokenHash next token → inv m → inv (m.enforceTunnelLocked token).2) :
    inv (s.setAgentKeyPolicy agentKeyTokenHash next).2 := by
  have each : ∀ (newly : List RoutingToken), (∀ token ∈ newly, s.newlyEnforced agentKeyTokenHash next token) →
      ∀ acc : List H × EdgeState H, inv acc.2 → inv (newly.foldl (fun acc token =>
        (acc.1 ++ (acc.2.enforceTunnelLocked token).1,(acc.2.enforceTunnelLocked token).2)) acc).2 := by
    intro newly
    induction newly with
    | nil => intro _ acc holds; exact holds
    | cons first rest ih =>
      intro all acc holds
      refine ih (fun token later => all token (List.mem_cons_of_mem _ later)) _ ?_
      exact evicts acc.2 first (all first List.mem_cons_self) holds
  exact each _ (fun token listed => (List.mem_filter.mp listed).2) _ start

theorem policySet (s : EdgeState H) (next : AgentKeyPolicy) :
    (s.setAgentKeyPolicy agentKeyTokenHash next).2.agentKeyPolicy = next :=
  policyInvariant agentKeyTokenHash s next (fun m => m.agentKeyPolicy = next) rfl (fun _ _ _ same => same)

/- A reload either changes nothing or is a switch to a list of its own. -/
theorem reloadCases (s : EdgeState H) (file : Except String String) :
    (s.reloadAgentKeyPolicyFromFile agentKeyTokenHash file).2 = s ∨
    ∃ text enforceSet, file = .ok text ∧ parseEnforceList text = .ok enforceSet ∧
      (s.reloadAgentKeyPolicyFromFile agentKeyTokenHash file).2 =
        (s.setAgentKeyPolicy agentKeyTokenHash { s.agentKeyPolicy with enforceSet := enforceSet }).2 := by
  unfold reloadAgentKeyPolicyFromFile
  split
  case h_1 => exact .inl rfl
  case h_2 path stored =>
    split
    case h_1 => exact .inl rfl
    case h_2 text =>
      split
      case h_1 => exact .inl rfl
      case h_2 enforceSet parsed => exact .inr ⟨text,enforceSet,rfl,parsed,rfl⟩

theorem policyEffect (s : EdgeState H) {op : Op H} {next : AgentKeyPolicy}
    (switch : s.apply agentKeyTokenHash op = (s.setAgentKeyPolicy agentKeyTokenHash next).2) (token : RoutingToken) :
    Effect agentKeyTokenHash s op token ((s.apply agentKeyTokenHash op).tunnel token) := by
  have set : (s.apply agentKeyTokenHash op).agentKeyPolicy = next := by rw [switch, policySet]
  rw [switch, tunnelPolicy]
  split
  case isTrue newly => exact .enforced set newly
  case isFalse => exact .same

/- A step on one token is no change for the others. -/
theorem ownEffect {s : EdgeState H} {op : Op H} {token other : RoutingToken} {t : Tunnel H}
    (own : other = token → Effect agentKeyTokenHash s op token t) :
    Effect agentKeyTokenHash s op other (if other = token then t else s.tunnel other) := by
  split
  case isTrue same => subst same; exact own rfl
  case isFalse => exact .same

/- A checked registration touches nothing but its own parts of the registry, and answers with the id it gave. -/
theorem checkedParts (s : EdgeState H) (token : RoutingToken) (handle : H) (candidate : SocketAddr) (mode : AgentKeyMode)
    (proof : Option ProvenKey) (now : UInt64) {out : Except AgentKeyReason (Nat × List H) × EdgeState H}
    (step : s.registerWithCandidateChecked agentKeyTokenHash token handle candidate mode proof now = out) :
    out.2.agentKeyPolicy = s.agentKeyPolicy ∧ out.2.fallback = s.fallback ∧ out.2.hostRoutes = s.hostRoutes ∧
    ((∃ reason, out.1 = .error reason) ∧ out.2.registrations = s.registrations ∧ out.2.sessions = s.sessions ∨
      ∃ r, (r = s.registrations ∨ r = (s.registrations.removeAll token).2) ∧ (∃ removed, out.1 = .ok (r.nextReg,removed)) ∧
        out.2.registrations = (r.registerLocked token handle).2 ∧
        out.2.sessions = s.sessions.noteConnected token now .quic) := by
  have admitted : ∀ (s : EdgeState H) (provesPin : Bool),
      (s.letIn token handle candidate provesPin now).1 = s.registrations.nextReg ∧
      (s.letIn token handle candidate provesPin now).2.agentKeyPolicy = s.agentKeyPolicy ∧
      (s.letIn token handle candidate provesPin now).2.fallback = s.fallback ∧
      (s.letIn token handle candidate provesPin now).2.hostRoutes = s.hostRoutes ∧
      (s.letIn token handle candidate provesPin now).2.registrations = (s.registrations.registerLocked token handle).2 ∧
      (s.letIn token handle candidate provesPin now).2.sessions = s.sessions.noteConnected token now .quic := by
    intro s provesPin
    cases provesPin <;> exact ⟨rfl,rfl,rfl,rfl,rfl,rfl⟩
  simp only [registerWithCandidateChecked] at step
  split at step
  case isTrue => subst step; exact ⟨rfl,rfl,rfl,.inl ⟨⟨_,rfl⟩,rfl,rfl⟩⟩
  case isFalse =>
    split at step
    case h_1 =>
      split at step
      case isTrue => subst step; exact ⟨rfl,rfl,rfl,.inl ⟨⟨_,rfl⟩,rfl,rfl⟩⟩
      case isFalse =>
        subst step
        obtain ⟨i,k,f,h,r,n⟩ := admitted s false
        exact ⟨k,f,h,.inr ⟨_,.inl rfl,⟨_,congrArg (fun id => Except.ok (id,_)) i⟩,r,n⟩⟩
    case h_2 key =>
      have pinned : ∀ (verdict : PinOutcome) (p : EdgeState H), s.pinProvenLocked token key = (verdict,p) →
          p.agentKeyPolicy = s.agentKeyPolicy ∧ p.fallback = s.fallback ∧ p.hostRoutes = s.hostRoutes ∧
          p.registrations = s.registrations ∧ p.sessions = s.sessions := by
        intro verdict p outcome
        cases (Prod.mk.inj outcome).2
        exact ⟨rfl,rfl,rfl,rfl,rfl⟩
      split at step
      case h_1 p outcome =>
        subst step
        obtain ⟨k,f,h,r,n⟩ := pinned _ _ outcome
        obtain ⟨i,k',f',h',r',n'⟩ := admitted p true
        exact ⟨k'.trans k,f'.trans f,h'.trans h,.inr ⟨_,.inl r,⟨_,congrArg (fun id => Except.ok (id,_)) i⟩,r',n'.trans (n ▸ rfl)⟩⟩
      case h_2 p outcome =>
        subst step
        obtain ⟨k,f,h,r,n⟩ := pinned _ _ outcome
        obtain ⟨i,k',f',h',r',n'⟩ := admitted (p.takeRegistrationsLocked token).2 true
        exact ⟨k'.trans k,f'.trans f,h'.trans h,.inr ⟨_,.inr (congrArg (fun r => (r.removeAll token).2) r),
          ⟨_,congrArg (fun id => Except.ok (id,_)) i⟩,r',n'.trans (n ▸ rfl)⟩⟩
      case h_3 reason p outcome =>
        obtain ⟨k,f,h,r,n⟩ := pinned _ _ outcome
        split at step
        case isTrue => subst step; exact ⟨k,f,h,.inl ⟨⟨_,rfl⟩,r,n⟩⟩
        case isFalse =>
          subst step
          obtain ⟨i,k',f',h',r',n'⟩ := admitted p false
          exact ⟨k'.trans k,f'.trans f,h'.trans h,.inr ⟨_,.inl r,⟨_,congrArg (fun id => Except.ok (id,_)) i⟩,r',n'.trans (n ▸ rfl)⟩⟩

omit agentKeyTokenHash in
theorem removeRegistrationParts (s : EdgeState H) (token : RoutingToken) (id : Nat) (now : UInt64) {next : EdgeState H}
    (step : s.removeRegistration token id now = next) :
    next.agentKeyPolicy = s.agentKeyPolicy ∧ next.registrations = (s.registrations.removeId token id).2 ∧
    next.fallback = s.fallback ∧
    (next.hostRoutes = s.hostRoutes ∧ next.sessions = s.sessions ∨
      next.hostRoutes = s.hostRoutes.clearHostsFor token ∧
        next.sessions = s.sessions.disconnect token now .registrationClosed) := by
  have forgotten : (s.forgetProven token id).agentKeyPolicy = s.agentKeyPolicy ∧
      (s.forgetProven token id).registrations = s.registrations ∧ (s.forgetProven token id).fallback = s.fallback ∧
      (s.forgetProven token id).hostRoutes = s.hostRoutes ∧ (s.forgetProven token id).sessions = s.sessions := by
    unfold forgetProven
    split <;> exact ⟨rfl,rfl,rfl,rfl,rfl⟩
  subst step
  rw [removeRegistration]
  generalize s.forgetProven token id = f at forgotten
  obtain ⟨k,r,p,h,n⟩ := forgotten
  rw [← k, ← r, ← p, ← h, ← n]
  simp only [dropRegistration]
  split
  case isTrue => exact ⟨rfl,rfl,rfl,.inl ⟨rfl,rfl⟩⟩
  case isFalse =>
    split
    case isTrue => exact ⟨rfl,rfl,rfl,.inl ⟨rfl,rfl⟩⟩
    case isFalse => exact ⟨rfl,rfl,rfl,.inr ⟨rfl,rfl⟩⟩

omit agentKeyTokenHash in
theorem tunnelRegistered (s : EdgeState H) (token : RoutingToken) (handle : H) (candidate : SocketAddr) (now : UInt64)
    (other : RoutingToken) : (s.registerWithCandidate token handle candidate now).2.tunnel other =
      if other = token then { (s.tunnel token).registered s.registrations.nextReg handle now with candidate := some candidate }
      else s.tunnel other := by
  have registered := tunnelRegister s token handle now other
  refine (tunnelCandidate (s.registerLocked token handle now).2 token candidate other).trans ?_
  split
  case isTrue same =>
    subst same
    rw [registered, if_pos rfl]
  case isFalse different => rw [registered, if_neg different]

theorem modeLenient {s : EdgeState H} {token : RoutingToken} {mode : AgentKeyMode}
    (lenient : s.agentKeyModeLocked agentKeyTokenHash token mode ≠ .enforce) :
    s.agentKeyModeFor agentKeyTokenHash token = .log := by
  unfold agentKeyModeLocked at lenient
  split at lenient
  case isTrue => exact absurd rfl lenient
  case isFalse mild =>
    cases current : s.agentKeyModeFor agentKeyTokenHash token with
    | log => rfl
    | enforce => exact absurd current mild

theorem effect {s : EdgeState H} (counted : s.registrations.Counted) (op : Op H) (token : RoutingToken) :
    Effect agentKeyTokenHash s op token ((s.apply agentKeyTokenHash op).tunnel token) := by
  cases op with
  | register owner handle now =>
    refine (tunnelRegister s owner handle now token).symm ▸ ownEffect agentKeyTokenHash (fun _ => ?_)
    exact .registered rfl (fun guarded => nomatch guarded)
  | registerWithCandidate owner handle candidate now =>
    refine (tunnelRegistered s owner handle candidate now token).symm ▸ ownEffect agentKeyTokenHash (fun _ => ?_)
    exact .registered rfl (fun guarded => nomatch guarded)
  | registerUnlessRevoked owner handle now =>
    simp only [apply, registerUnlessRevoked]
    split
    case isTrue => exact .same
    case isFalse valid =>
      refine (tunnelRegister s owner handle now token).symm ▸ ownEffect agentKeyTokenHash (fun _ => ?_)
      exact .registered rfl (fun _ => by simpa using valid)
  | registerWithCandidateUnlessRevoked owner handle candidate now =>
    simp only [apply, registerWithCandidateUnlessRevoked]
    split
    case isTrue => exact .same
    case isFalse valid =>
      refine (tunnelRegistered s owner handle candidate now token).symm ▸ ownEffect agentKeyTokenHash (fun _ => ?_)
      exact .registered rfl (fun _ => by simpa using valid)
  | registerWithCandidateChecked owner handle candidate mode proof now =>
    obtain ⟨others,own⟩ := tunnelChecked agentKeyTokenHash s owner handle candidate mode proof now rfl
    by_cases mine : token = owner
    · subst mine
      obtain refused | ⟨valid,admission⟩ := own
      · exact refused ▸ .same
      · exact .admitted rfl valid admission
    · exact others token mine ▸ .same
  | parkTcpAgent owner now =>
    refine (tunnelPark s owner now token).symm ▸ ownEffect agentKeyTokenHash (fun _ => ?_)
    exact .parked (fun checked => nomatch checked) (fun guarded => nomatch guarded)
  | parkTcpAgentUnlessRevoked owner now =>
    simp only [apply, parkTcpAgentUnlessRevoked]
    split
    case isTrue => exact .same
    case isFalse valid =>
      refine (tunnelPark s owner now token).symm ▸ ownEffect agentKeyTokenHash (fun _ => ?_)
      exact .parked (fun checked => nomatch checked) (fun _ => by simpa using valid)
  | parkTcpAgentChecked owner mode now =>
    simp only [apply, parkTcpAgentChecked]
    split
    case isTrue => exact .same
    case isFalse valid =>
      split
      case isTrue => exact .same
      case isFalse lenient =>
        refine (tunnelPark s owner now token).symm ▸ ownEffect agentKeyTokenHash (fun _ => ?_)
        exact .parked (fun _ => modeLenient agentKeyTokenHash lenient) (fun _ => by simpa using valid)
  | deliverToTcpAgentDraining owner late => exact .unparked (Fallback.parkedDrain s.fallback owner late _ token)
  | reapDeadTcpParks =>
    have fewer := Fallback.parkedReap s.fallback token
    exact .unparked (fewer ▸ List.filter_sublist)
  | dropReceiver slot => exact .same
  | registerHost host owner =>
    obtain ⟨hosts,after,changed⟩ := tunnelHost s host owner token
    exact after ▸ .hosts (fun different => by
      obtain ⟨rfl,valid⟩ := changed different
      exact valid)
  | setCertTier host gelb =>
    simp only [apply, HostRoutes.setCertTier]
    split <;> exact .same
  | requireHostAuth => exact .same
  | authorizeHost host owner =>
    simp only [apply, HostRoutes.authorizeHost]
    split <;> exact .same
  | unauthorizeHost host =>
    simp only [apply, HostRoutes.unauthorizeHost]
    split <;> exact .same
  | advertiseDirect owner addr cert order =>
    obtain ⟨direct,after,changed⟩ := tunnelAdvertise s owner addr cert order token
    refine after ▸ .direct ?_
    obtain same | gone | ⟨rfl,valid⟩ := changed
    · exact .inl same
    · exact .inr (.inl gone)
    · exact .inr (.inr valid)
  | removeRegistration owner id now =>
    exact (tunnelRemoveRegistration counted owner id now token).symm ▸ ownEffect agentKeyTokenHash (fun _ => .dropped)
  | remove owner now => exact (tunnelRemove s owner .removed now token).symm ▸ ownEffect agentKeyTokenHash (fun _ => .torn)
  | revokeToken owner now => exact (tunnelRevoke s owner now token).symm ▸ ownEffect agentKeyTokenHash (fun _ => .revoked rfl)
  | seedRevokedTokens tokens => exact .seeded rfl
  | setAgentKeyPolicy next => exact policyEffect agentKeyTokenHash s rfl token
  | reloadAgentKeyPolicyFromFile file =>
    obtain refused | ⟨_,_,_,_,switch⟩ := reloadCases agentKeyTokenHash s file
    · have same : (s.apply agentKeyTokenHash (.reloadAgentKeyPolicyFromFile file)).tunnel token = s.tunnel token :=
        congrArg (fun next => next.tunnel token) refused
      exact same ▸ .same
    · have reload : s.apply agentKeyTokenHash (.reloadAgentKeyPolicyFromFile file) = _ := switch
      exact policyEffect agentKeyTokenHash s reload token
  | setAdminToken secret => exact .same
  | noteRelay owner clientToAgent agentToClient now => exact .same
  | flushTunnelHistory now idleEvictSecs => exact .swept (fun alive => Sessions.sinceFlush s.sessions now idleEvictSecs alive)
  | ageOutStaleHistory now maxAgeSecs =>
    have kept := Sessions.sinceAgeOut s.sessions s.isLive now maxAgeSecs
    exact .swept (fun _ => congrArg (fun since => since[token]?) kept)
  | setTunnelHistory history => exact .same
  | historyFails failing => exact .same

end EdgeState
end CadsTunnel.Edge
