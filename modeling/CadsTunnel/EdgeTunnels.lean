import CadsTunnel.EdgeState

/-! What the registry holds for one token, and what each operation does to it. All
operations but the policy switch and the sweeps act on one token and leave the tunnels of
the others as they are, so a property of every token follows from these equations. -/
namespace CadsTunnel.Edge
open OrderedMap Words
open Std (ExtTreeMap ExtTreeSet)

structure Tunnel (H : Type) where
  live : List (Nat × H)
  parked : List Nat
  candidate : Option SocketAddr
  direct : Option (SocketAddr × Bytes)
  hosts : HashSet String
  since : Option UInt64
  pin : Option AgentKeyPin
  revoked : Bool

namespace Tunnel
variable {H : Type}

def registered (t : Tunnel H) (id : Nat) (handle : H) (now : UInt64) : Tunnel H :=
  { t with
    live := t.live ++ [(id,handle)]
    since := some (t.since.getD now) }

def withParked (t : Tunnel H) (slot : Nat) (now : UInt64) : Tunnel H :=
  { t with
    parked := t.parked ++ [slot]
    since := some (t.since.getD now) }

/- Nothing is left but the revocation. -/
def torn (t : Tunnel H) : Tunnel H :=
  { live := []
    parked := []
    candidate := none
    direct := none
    hosts := ∅
    since := none
    pin := none
    revoked := t.revoked }

def proven (t : Tunnel H) : HashSet Nat := (t.pin.map AgentKeyPin.provenIds).getD ∅

def enforced (t : Tunnel H) : Tunnel H :=
  { t with
    live := t.live.filter (fun e => t.proven.contains e.1)
    parked := [] }

def forget (t : Tunnel H) (id : Nat) : Tunnel H :=
  { t with pin := t.pin.map (fun pin => { pin with provenIds := pin.provenIds.erase id }) }

def left (t : Tunnel H) (id : Nat) : List (Nat × H) := t.live.filter (fun e => e.1 ≠ id)

/- The last registration takes the candidate and the direct endpoint with it, and the rest when nothing is parked. -/
def dropped (t : Tunnel H) (id : Nat) : Tunnel H :=
  if t.live.isEmpty || !(t.left id).isEmpty then { t with live := t.left id }
  else if !t.parked.isEmpty then { t with live := [], candidate := none, direct := none }
  else { t with live := [], candidate := none, direct := none, hosts := ∅, since := none }

end Tunnel

namespace EdgeState
variable {H : Type}

def tunnel (s : EdgeState H) (token : RoutingToken) : Tunnel H where
  live := s.registrations.live token
  parked := s.fallback.parked token
  candidate := s.candidates[token]?
  direct := s.direct[token]?
  hosts := s.hostRoutes.owned token
  since := s.sessions.connectedSince[token]?
  pin := s.agentPins[token]?
  revoked := s.revoked.contains token

theorem tunnelRegister (s : EdgeState H) (token : RoutingToken) (handle : H) (now : UInt64) (other : RoutingToken) :
    (s.registerLocked token handle now).2.tunnel other =
      if other = token then (s.tunnel token).registered s.registrations.nextReg handle now else s.tunnel other := by
  simp only [tunnel, registerLocked, Tunnel.registered, Registrations.liveRegister, Sessions.sinceConnected]
  split
  case isTrue same => subst same; rfl
  case isFalse => rfl

theorem tunnelCandidate (s : EdgeState H) (token : RoutingToken) (candidate : SocketAddr) (other : RoutingToken) :
    { s with candidates := s.candidates.insert token candidate }.tunnel other =
      if other = token then { s.tunnel token with candidate := some candidate } else s.tunnel other := by
  simp only [tunnel, lookupInsert]
  split
  case isTrue same => subst same; rfl
  case isFalse => rfl

theorem tunnelPark (s : EdgeState H) (token : RoutingToken) (now : UInt64) (other : RoutingToken) :
    (s.parkTcpAgent token now).2.tunnel other =
      if other = token then (s.tunnel token).withParked s.fallback.nextSlot now else s.tunnel other := by
  simp only [tunnel, parkTcpAgent, Tunnel.withParked, Fallback.parkedPark, Sessions.sinceConnected]
  split
  case isTrue same => subst same; rfl
  case isFalse => rfl

theorem tunnelRemove (s : EdgeState H) (token : RoutingToken) (reason : CloseReason) (now : UInt64) (other : RoutingToken) :
    (s.removeLocked token reason now).tunnel other =
      if other = token then (s.tunnel token).torn else s.tunnel other := by
  simp only [tunnel, removeLocked, Tunnel.torn, Registrations.liveRemoveAll, Fallback.parkedRemove, lookupErase,
    HostRoutes.clearedOwned, Sessions.sinceDisconnect]
  split
  case isTrue same => subst same; rfl
  case isFalse => rfl

theorem tunnelRevoke (s : EdgeState H) (token : RoutingToken) (now : UInt64) (other : RoutingToken) :
    (s.revokeToken token now).tunnel other =
      if other = token then { (s.tunnel token).torn with revoked := true } else s.tunnel other := by
  have torn := tunnelRemove { s with revoked := s.revoked.insert token } token .revoked now other
  have mark : (s.revoked.insert token).contains other = if other = token then true else s.revoked.contains other := by
    rw [ExtTreeSet.contains_insert]
    by_cases same : other = token
    · simp [same]
    · simp [same, Ne.symm same]
  refine Eq.trans torn ?_
  simp only [tunnel, Tunnel.torn, mark]
  split
  case isTrue same => subst same; simp
  case isFalse => rfl

theorem tunnelForget (s : EdgeState H) (token : RoutingToken) (id : Nat) (other : RoutingToken) :
    (s.forgetProven token id).tunnel other =
      if other = token then (s.tunnel token).forget id else s.tunnel other := by
  unfold forgetProven
  split
  case h_1 absent =>
    split
    case isTrue same => subst same; simp [tunnel, Tunnel.forget, absent]
    case isFalse => rfl
  case h_2 pin found =>
    simp only [tunnel, Tunnel.forget, lookupInsert]
    split
    case isTrue same => subst same; simp [found]
    case isFalse => rfl

theorem removeIdLast {r : Registrations H} (counted : r.Counted) (token : RoutingToken) (id : Nat) :
    (r.removeId token id).1 = !((r.live token).isEmpty || !((r.live token).filter (fun e => e.1 ≠ id)).isEmpty) := by
  have absent := counted.absent token
  unfold Registrations.removeId
  split
  case h_1 missing => simp [absent.mpr missing]
  case h_2 entry found =>
    have occupied : (r.live token).isEmpty = false := by simpa [found] using absent
    have same : r.live token = entry := by simp [Registrations.live, queueAt, found]
    rw [occupied, same]
    simp

theorem tunnelDrop {s : EdgeState H} (counted : s.registrations.Counted) (token : RoutingToken) (id : Nat)
    (now : UInt64) (other : RoutingToken) :
    (s.dropRegistration token id now).tunnel other =
      if other = token then (s.tunnel token).dropped id else s.tunnel other := by
  have last := removeIdLast counted token id
  simp only [dropRegistration, last, Bool.not_not, Tunnel.dropped, Tunnel.left, tunnel, Fallback.hasTcpAgent]
  by_cases remains : ((s.registrations.live token).isEmpty ||
      !((s.registrations.live token).filter (fun e => e.1 ≠ id)).isEmpty) = true
  · simp only [remains, if_true, Registrations.liveRemoveId]
    split
    case isTrue same => subst same; rfl
    case isFalse => rfl
  · have empty : (s.registrations.live token).filter (fun e => e.1 ≠ id) = [] := by
      simp only [Bool.or_eq_true, not_or, Bool.not_eq_true', Bool.not_eq_false] at remains
      exact List.isEmpty_iff.mp remains.2
    simp only [remains, Bool.false_eq_true, if_false]
    by_cases waiting : (!(s.fallback.parked token).isEmpty) = true
    · simp only [waiting, if_true, Registrations.liveRemoveId, empty, lookupErase]
      split
      case isTrue same => subst same; rfl
      case isFalse => rfl
    · simp only [waiting, Bool.false_eq_true, if_false, Registrations.liveRemoveId, empty, lookupErase,
        HostRoutes.clearedOwned, Sessions.sinceDisconnect]
      split
      case isTrue same => subst same; rfl
      case isFalse => rfl

theorem tunnelRemoveRegistration {s : EdgeState H} (counted : s.registrations.Counted) (token : RoutingToken) (id : Nat)
    (now : UInt64) (other : RoutingToken) :
    (s.removeRegistration token id now).tunnel other =
      if other = token then ((s.tunnel token).forget id).dropped id else s.tunnel other := by
  have same : (s.forgetProven token id).registrations = s.registrations := by unfold forgetProven; split <;> rfl
  rw [removeRegistration, tunnelDrop (same ▸ counted), tunnelForget, tunnelForget, if_pos rfl]
  split <;> rfl

theorem tunnelHost (s : EdgeState H) (host : String) (token other : RoutingToken) :
    ∃ hosts, (s.registerHost host token).2.tunnel other = { s.tunnel other with hosts := hosts } ∧
      (hosts ≠ (s.tunnel other).hosts → other = token ∧ s.isRevoked token = false) := by
  unfold registerHost
  split
  case h_1 => exact ⟨_,rfl,fun changed => absurd rfl changed⟩
  case h_2 key normal =>
    split
    case isTrue => exact ⟨_,rfl,fun changed => absurd rfl changed⟩
    case isFalse valid =>
      split
      case h_1 => exact ⟨_,rfl,fun changed => absurd rfl changed⟩
      case h_2 routes bound =>
        obtain ⟨_,rfl⟩ := HostRoutes.bindCases bound
        refine ⟨_,rfl,?_⟩
        intro changed
        refine ⟨?_,by simpa using valid⟩
        by_contra different
        refine changed ?_
        simp only [HostRoutes.owned, lookupInsert, if_neg different]
        rfl

/- A full map may give up the endpoint of another token, never gain one for it. -/
theorem tunnelAdvertise (s : EdgeState H) (token : RoutingToken) (addr : SocketAddr) (cert : Bytes)
    (order : List RoutingToken) (other : RoutingToken) :
    ∃ direct, (s.advertiseDirect token addr cert order).2.tunnel other = { s.tunnel other with direct := direct } ∧
      (direct = (s.tunnel other).direct ∨ direct = none ∨ other = token ∧ s.isRevoked token = false) := by
  unfold advertiseDirect
  split
  case isTrue => exact ⟨_,rfl,.inl rfl⟩
  case isFalse accepted =>
    have valid : s.isRevoked token = false := by
      simp only [Bool.or_eq_true, not_or, Bool.not_eq_true] at accepted
      exact accepted.1
    split
    case isTrue =>
      refine ⟨_,rfl,?_⟩
      by_cases same : other = token
      · exact .inr (.inr ⟨same,valid⟩)
      · exact .inl ((lookupInsert s.direct token other _).trans (if_neg same))
    case isFalse =>
      dsimp only
      split
      case h_1 => exact ⟨_,rfl,.inl rfl⟩
      case h_2 victim chosen =>
        refine ⟨_,rfl,?_⟩
        by_cases same : other = token
        · exact .inr (.inr ⟨same,valid⟩)
        · have lookup := (lookupInsert (s.direct.erase victim) token other (addr,cert)).trans (if_neg same)
          rw [lookupErase] at lookup
          split at lookup
          · exact .inr (.inl lookup)
          · exact .inl lookup

theorem tunnelEnforce (s : EdgeState H) (token other : RoutingToken) :
    (s.enforceTunnelLocked token).2.tunnel other =
      if other = token then (s.tunnel token).enforced else s.tunnel other := by
  simp only [tunnel, enforceTunnelLocked, Tunnel.enforced, Tunnel.proven, Registrations.liveEvict, Fallback.parkedRemove]
  split
  case isTrue same => subst same; rfl
  case isFalse => rfl

variable (agentKeyTokenHash : RoutingToken → Key)

theorem swappedDistinct (s : EdgeState H) (next : AgentKeyPolicy) :
    (s.swapAgentKeyPolicyLocked agentKeyTokenHash next).1.Nodup := by
  refine List.Nodup.filter _ (List.nodup_append'.mpr ⟨s.registrations.agents.nodup_keys,?_,?_⟩)
  · exact s.fallback.tcpAgents.nodup_keys.filter _
  · intro token known listed
    exact absurd known (by simpa using (List.mem_filter.mp listed).2)

/- The switch acts on every token that newly enforces, known to the registry or not. -/
theorem tunnelPolicy (s : EdgeState H) (next : AgentKeyPolicy) (other : RoutingToken) :
    (s.setAgentKeyPolicy agentKeyTokenHash next).2.tunnel other =
      if s.newlyEnforced agentKeyTokenHash next other then (s.tunnel other).enforced else s.tunnel other := by
  have each := Machine.foldlView (f := fun (acc : List H × EdgeState H) token =>
      (acc.1 ++ (acc.2.enforceTunnelLocked token).1,(acc.2.enforceTunnelLocked token).2))
    (fun acc => acc.2.tunnel other) other Tunnel.enforced
    (fun acc => by simp [tunnelEnforce]) (fun acc token different => by simp [tunnelEnforce, Ne.symm different])
    (swappedDistinct agentKeyTokenHash s next) ([],{ s with agentKeyPolicy := next })
  obtain ⟨member,acted⟩ | ⟨member,kept⟩ := each
  · refine Eq.trans acted ?_
    simp only [swapAgentKeyPolicyLocked, List.mem_filter] at member
    rw [if_pos member.2]
    rfl
  · refine Eq.trans kept ?_
    split
    case isTrue newly =>
      simp only [swapAgentKeyPolicyLocked, List.mem_filter, List.mem_append, newly, and_true, not_or, decide_eq_true_eq,
        not_and, not_not, ExtTreeMap.mem_keys] at member
      have unregistered : s.registrations.agents[other]? = none := ExtTreeMap.getElem?_eq_none member.1
      have unparked : s.fallback.tcpAgents[other]? = none :=
        ExtTreeMap.getElem?_eq_none (fun parked => member.1 (member.2 parked))
      simp [tunnel, Tunnel.enforced, Registrations.live, Fallback.parked, queueAt, unregistered, unparked]
    case isFalse => rfl

/- A rejected binding was measured against a pin and leaves it. -/
theorem pinRejected {pin : Option AgentKeyPin} {proof : ProvenKey} {reason : AgentKeyReason} {entry : AgentKeyPin}
    (outcome : pinProven (pin.getD {}) proof = (.rejected reason,entry)) : some entry = pin := by
  cases pin with
  | none => simp [pinProven] at outcome
  | some before =>
    simp only [Option.getD_some, pinProven] at outcome
    split at outcome
    · simp at outcome
    · split at outcome
      · simp at outcome
      · split at outcome
        · simp at outcome
        · split at outcome <;> exact congrArg some (Prod.mk.inj outcome).2.symm

/- What an admitted checked registration does to its tunnel. -/
inductive Admission (enforcing : Bool) (id : Nat) (handle : H) (candidate : SocketAddr) (proof : Option ProvenKey)
    (now : UInt64) (t : Tunnel H) : Tunnel H → Prop where
  | unproven (lenient : enforcing = false) :
      Admission enforcing id handle candidate proof now t { t.registered id handle now with candidate := some candidate }
  | accepted {key : ProvenKey} {entry : AgentKeyPin} (given : proof = some key)
      (outcome : pinProven (t.pin.getD {}) key = (.accepted,entry)) :
      Admission enforcing id handle candidate proof now t { t.registered id handle now with
        candidate := some candidate
        pin := some { entry with provenIds := entry.provenIds.insert id } }
  | repinned {key : ProvenKey} {entry : AgentKeyPin} (given : proof = some key)
      (outcome : pinProven (t.pin.getD {}) key = (.repinned,entry)) :
      Admission enforcing id handle candidate proof now t { t.registered id handle now with
        live := [(id,handle)]
        candidate := some candidate
        pin := some { entry with provenIds := entry.provenIds.insert id } }

theorem tunnelPin (s : EdgeState H) (token : RoutingToken) (pin : AgentKeyPin) (other : RoutingToken) :
    { s with agentPins := s.agentPins.insert token pin }.tunnel other =
      if other = token then { s.tunnel token with pin := some pin } else s.tunnel other := by
  simp only [tunnel, lookupInsert]
  split
  case isTrue same => subst same; rfl
  case isFalse => rfl

theorem tunnelTake (s : EdgeState H) (token other : RoutingToken) :
    (s.takeRegistrationsLocked token).2.tunnel other =
      if other = token then { s.tunnel token with live := [] } else s.tunnel other := by
  simp only [tunnel, takeRegistrationsLocked, Registrations.liveRemoveAll]
  split
  case isTrue same => subst same; rfl
  case isFalse => rfl

theorem tunnelAdmit (s : EdgeState H) (token : RoutingToken) (handle : H) (candidate : SocketAddr) (provesPin : Bool)
    (now : UInt64) (other : RoutingToken) :
    (s.letIn token handle candidate provesPin now).2.tunnel other =
      if other = token then
        if provesPin then { (s.tunnel token).registered s.registrations.nextReg handle now with
          candidate := some candidate
          pin := some { (s.tunnel token).pin.getD {} with
            provenIds := ((s.tunnel token).pin.getD {}).provenIds.insert s.registrations.nextReg } }
        else { (s.tunnel token).registered s.registrations.nextReg handle now with candidate := some candidate }
      else s.tunnel other := by
  have registered := Registrations.liveRegister s.registrations token handle other
  have since := Sessions.sinceConnected s.sessions token now .quic other
  cases provesPin with
  | true =>
    simp only [tunnel, letIn, markProven, registerLocked, Tunnel.registered, registered, since, lookupInsert, if_true]
    split
    case isTrue same => subst same; rfl
    case isFalse => rfl
  | false =>
    simp only [tunnel, letIn, registerLocked, Tunnel.registered, registered, since, lookupInsert, Bool.false_eq_true, if_false]
    split
    case isTrue same => subst same; rfl
    case isFalse => rfl

theorem tunnelChecked (s : EdgeState H) (token : RoutingToken) (handle : H) (candidate : SocketAddr) (mode : AgentKeyMode)
    (proof : Option ProvenKey) (now : UInt64) {next : EdgeState H}
    (step : (s.registerWithCandidateChecked agentKeyTokenHash token handle candidate mode proof now).2 = next) :
    (∀ other, other ≠ token → next.tunnel other = s.tunnel other) ∧
    (next.tunnel token = s.tunnel token ∨ s.isRevoked token = false ∧
      Admission (s.agentKeyModeLocked agentKeyTokenHash token mode = .enforce) s.registrations.nextReg handle candidate proof
        now (s.tunnel token) (next.tunnel token)) := by
  subst step
  simp only [registerWithCandidateChecked]
  split
  case isTrue => exact ⟨fun _ _ => rfl,.inl rfl⟩
  case isFalse valid =>
    have valid : s.isRevoked token = false := by simpa using valid
    cases proof with
    | none =>
      dsimp only
      split
      case isTrue => exact ⟨fun _ _ => rfl,.inl rfl⟩
      case isFalse lenient =>
        refine ⟨fun other different => ?_,.inr ⟨valid,?_⟩⟩
        · rw [tunnelAdmit, if_neg different]
        · rw [tunnelAdmit, if_pos rfl]
          exact .unproven (by simpa using lenient)
    | some key =>
      cases outcome : pinProven ((s.tunnel token).pin.getD {}) key with
      | mk verdict entry =>
        have pinned : s.pinProvenLocked token key = (verdict,{ s with agentPins := s.agentPins.insert token entry }) := by
          simp only [tunnel] at outcome
          simp only [pinProvenLocked, outcome]
        simp only [pinned]
        have after := tunnelPin s token entry
        generalize moved : { s with agentPins := s.agentPins.insert token entry } = p at after
        have own : p.tunnel token = { s.tunnel token with pin := some entry } := by rw [after, if_pos rfl]
        have fresh : p.registrations.nextReg = s.registrations.nextReg := by rw [← moved]
        cases verdict with
        | accepted =>
          refine ⟨fun other different => ?_,.inr ⟨valid,?_⟩⟩
          · rw [tunnelAdmit, if_neg different, after, if_neg different]
          · rw [tunnelAdmit, if_pos rfl, if_pos rfl, own, fresh]
            exact .accepted rfl outcome
        | repinned =>
          have taken := tunnelTake p token
          have empty : (p.takeRegistrationsLocked token).2.tunnel token = { s.tunnel token with live := [], pin := some entry } := by
            rw [taken, if_pos rfl, own]
          have same : (p.takeRegistrationsLocked token).2.registrations.nextReg = s.registrations.nextReg := by
            rw [← fresh]
            simp only [takeRegistrationsLocked, Registrations.removeAll]
            split
            · rfl
            · split <;> rfl
          refine ⟨fun other different => ?_,.inr ⟨valid,?_⟩⟩
          · rw [tunnelAdmit, if_neg different, taken, if_neg different, after, if_neg different]
          · rw [tunnelAdmit, if_pos rfl, if_pos rfl, empty, same]
            exact .repinned rfl outcome
        | rejected reason =>
          have still : p.tunnel token = s.tunnel token := by
            rw [own, pinRejected outcome]
          dsimp only
          split
          case isTrue => exact ⟨fun other different => by rw [after, if_neg different],.inl still⟩
          case isFalse lenient =>
            refine ⟨fun other different => ?_,.inr ⟨valid,?_⟩⟩
            · rw [tunnelAdmit, if_neg different, after, if_neg different]
            · rw [tunnelAdmit, if_pos rfl, still, fresh]
              exact .unproven (by simpa using lenient)

omit agentKeyTokenHash in
theorem tunnelLive (s : EdgeState H) (token : RoutingToken) :
    s.isLive token = (!(s.tunnel token).live.isEmpty || !(s.tunnel token).parked.isEmpty) := rfl

end EdgeState

end CadsTunnel.Edge
