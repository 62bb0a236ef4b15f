import CadsTunnel.EdgeSteps

/-! The counters of the registry over whole runs. The two gauges of the registrations are
exact after every sequence of steps. The gauge of the parked slots is exact as long as no
teardown and no policy switch drops a queue that is not empty: those two paths forget it. -/
namespace CadsTunnel.Edge
open OrderedMap Words
open Std (ExtTreeMap)

/- The handle a step registers. -/
def Op.handle {H : Type} : Op H → Option H
  | .register _ handle _ | .registerWithCandidate _ handle _ _ | .registerUnlessRevoked _ handle _
  | .registerWithCandidateUnlessRevoked _ handle _ _ | .registerWithCandidateChecked _ handle _ _ _ _ => some handle
  | _ => none

/- What a step makes of the registrations: the four functions that change them, and none but its own handle is added. -/
inductive Rearranged {H : Type} (handle : Option H) (r : Registrations H) : Registrations H → Prop where
  | same : Rearranged handle r r
  | registered {m : Registrations H} {h : H} (before : Rearranged handle r m) (own : handle = some h) (token : RoutingToken) :
      Rearranged handle r (m.registerLocked token h).2
  | removedId {m : Registrations H} (before : Rearranged handle r m) (token : RoutingToken) (id : Nat) :
      Rearranged handle r (m.removeId token id).2
  | removedAll {m : Registrations H} (before : Rearranged handle r m) (token : RoutingToken) :
      Rearranged handle r (m.removeAll token).2
  | evicted {m : Registrations H} (before : Rearranged handle r m) (token : RoutingToken) (proven : HashSet Nat) :
      Rearranged handle r (m.evictUnproven token proven).2

namespace EdgeState
variable {H : Type} (agentKeyTokenHash : RoutingToken → Key)

theorem rearrangedPolicy (s : EdgeState H) (handle : Option H) (next : AgentKeyPolicy) :
    Rearranged handle s.registrations (s.setAgentKeyPolicy agentKeyTokenHash next).2.registrations :=
  policyInvariant agentKeyTokenHash s next (fun m => Rearranged handle s.registrations m.registrations) .same
    (fun _ token _ before => .evicted before token _)

theorem rearranged (s : EdgeState H) (op : Op H) :
    Rearranged op.handle s.registrations (s.apply agentKeyTokenHash op).registrations := by
  cases op with
  | register token handle now => exact .registered .same rfl token
  | registerWithCandidate token handle candidate now => exact .registered .same rfl token
  | registerUnlessRevoked token handle now =>
    simp only [apply, registerUnlessRevoked]
    split
    · exact .same
    · exact .registered .same rfl token
  | registerWithCandidateUnlessRevoked token handle candidate now =>
    simp only [apply, registerWithCandidateUnlessRevoked]
    split
    · exact .same
    · exact .registered .same rfl token
  | registerWithCandidateChecked token handle candidate mode proof now =>
    obtain ⟨_,_,_,⟨_,same,_⟩ | ⟨r,origin,_,registered,_⟩⟩ :=
      checkedParts agentKeyTokenHash s token handle candidate mode proof now rfl
    · exact same ▸ .same
    · refine registered ▸ .registered ?_ rfl token
      obtain rfl | rfl := origin
      · exact .same
      · exact .removedAll .same token
  | removeRegistration token id now =>
    obtain ⟨_,kept,_,_⟩ := removeRegistrationParts s token id now rfl
    simp only [apply, kept]
    exact .removedId .same token id
  | remove token now => exact .removedAll .same token
  | revokeToken token now => exact .removedAll .same token
  | setAgentKeyPolicy next => exact rearrangedPolicy agentKeyTokenHash s _ next
  | reloadAgentKeyPolicyFromFile file =>
    have switched := reloadCases agentKeyTokenHash s file
    simp only [apply]
    obtain same | ⟨_,_,_,_,switch⟩ := switched
    · rw [same]
      exact .same
    · rw [switch]
      exact rearrangedPolicy agentKeyTokenHash s _ _
  | parkTcpAgentUnlessRevoked token now =>
    simp only [apply, parkTcpAgentUnlessRevoked]
    split <;> exact .same
  | parkTcpAgentChecked token mode now =>
    simp only [apply, parkTcpAgentChecked]
    split
    · exact .same
    · split <;> exact .same
  | registerHost host token =>
    simp only [apply, registerHost]
    split
    · exact .same
    · split
      · exact .same
      · split <;> exact .same
  | advertiseDirect token addr cert order =>
    simp only [apply, advertiseDirect]
    split
    · exact .same
    · split
      · exact .same
      · split <;> exact .same
  | _ => exact .same

theorem countedApply {s : EdgeState H} (counted : s.registrations.Counted) (op : Op H) :
    (s.apply agentKeyTokenHash op).registrations.Counted := by
  have change := rearranged agentKeyTokenHash s op
  generalize (s.apply agentKeyTokenHash op).registrations = r at change
  induction change with
  | same => exact counted
  | registered before own token ih => exact Registrations.countedRegister ih token _
  | removedId before token id ih => exact Registrations.countedRemoveId ih token id
  | removedAll before token ih => exact Registrations.countedRemoveAll ih token
  | evicted before token proven ih => exact Registrations.countedEvict ih token proven

theorem registrationGaugesExact (ops : List (Op H)) :
    let r := (run agentKeyTokenHash ({} : EdgeState H) ops).registrations
    (∀ (token : RoutingToken) (entry : List (Nat × H)), r.agents[token]? = some entry → entry ≠ []) ∧
    r.activeTunnelsGauge = .ofNat r.agents.size ∧
    r.totalRegistrationsGauge = .ofNat (contents r.agents).length ∧
    ((contents r.agents).map Prod.fst).Nodup := by
  have counted : (run agentKeyTokenHash ({} : EdgeState H) ops).registrations.Counted :=
    Machine.runInvariant (fun s : EdgeState H => s.registrations.Counted)
      (fun _ op holds => countedApply agentKeyTokenHash holds op) Registrations.countedNew ops
  exact ⟨counted.nonempty,counted.tunnels,counted.registrations,counted.distinct⟩

/- No teardown and no switch to enforcement meets a parked slot. -/
def dropsNoQueue (s : EdgeState H) : Op H → Prop
  | .remove token _ => s.fallback.parked token = []
  | .revokeToken token _ => s.fallback.parked token = []
  | .setAgentKeyPolicy next => ∀ token, s.newlyEnforced agentKeyTokenHash next token → s.fallback.parked token = []
  | .reloadAgentKeyPolicyFromFile file => ∀ text enforceSet, file = .ok text → parseEnforceList text = .ok enforceSet →
      ∀ token, s.newlyEnforced agentKeyTokenHash { s.agentKeyPolicy with enforceSet := enforceSet } token →
        s.fallback.parked token = []
  | _ => True

theorem gaugedPolicy {s : EdgeState H} (gauged : s.fallback.Gauged) {next : AgentKeyPolicy}
    (idle : ∀ token, s.newlyEnforced agentKeyTokenHash next token → s.fallback.parked token = []) :
    (s.setAgentKeyPolicy agentKeyTokenHash next).2.fallback.Gauged := by
  have both := policyInvariant agentKeyTokenHash s next
    (fun m => m.fallback.Gauged ∧ ∀ token, s.newlyEnforced agentKeyTokenHash next token → m.fallback.parked token = [])
    ⟨gauged,idle⟩ ?_
  · exact both.1
  · intro m token newly holds
    refine ⟨Fallback.gaugedRemove holds.1 (holds.2 token newly),?_⟩
    intro other later
    refine (Fallback.parkedRemove m.fallback token other).trans ?_
    split
    · rfl
    · exact holds.2 other later

theorem gaugedApply {s : EdgeState H} {op : Op H} (kept : s.dropsNoQueue agentKeyTokenHash op) (gauged : s.fallback.Gauged) :
    (s.apply agentKeyTokenHash op).fallback.Gauged := by
  cases op with
  | registerWithCandidateChecked token handle candidate mode proof now =>
    obtain ⟨_,same,_⟩ := checkedParts agentKeyTokenHash s token handle candidate mode proof now rfl
    exact same ▸ gauged
  | registerUnlessRevoked token handle now =>
    simp only [apply, registerUnlessRevoked]
    split <;> exact gauged
  | registerWithCandidateUnlessRevoked token handle candidate now =>
    simp only [apply, registerWithCandidateUnlessRevoked]
    split <;> exact gauged
  | parkTcpAgent token now => exact Fallback.gaugedPark gauged token
  | parkTcpAgentUnlessRevoked token now =>
    simp only [apply, parkTcpAgentUnlessRevoked]
    split
    · exact gauged
    · exact Fallback.gaugedPark gauged token
  | parkTcpAgentChecked token mode now =>
    simp only [apply, parkTcpAgentChecked]
    split
    · exact gauged
    · split
      · exact gauged
      · exact Fallback.gaugedPark gauged token
  | deliverToTcpAgentDraining token late => exact Fallback.gaugedDrain gauged token late _
  | reapDeadTcpParks => exact Fallback.gaugedReap gauged
  | removeRegistration token id now =>
    obtain ⟨_,_,same,_⟩ := removeRegistrationParts s token id now rfl
    simp only [apply, same]
    exact gauged
  | remove token now => exact Fallback.gaugedRemove gauged kept
  | revokeToken token now => exact Fallback.gaugedRemove gauged kept
  | setAgentKeyPolicy next => exact gaugedPolicy agentKeyTokenHash gauged kept
  | reloadAgentKeyPolicyFromFile file =>
    have switched := reloadCases agentKeyTokenHash s file
    simp only [apply]
    obtain same | ⟨text,enforceSet,read,parsed,switch⟩ := switched
    · rwa [same]
    · rw [switch]
      exact gaugedPolicy agentKeyTokenHash gauged (kept text enforceSet read parsed)
  | registerHost host token =>
    simp only [apply, registerHost]
    split
    · exact gauged
    · split
      · exact gauged
      · split <;> exact gauged
  | advertiseDirect token addr cert order =>
    simp only [apply, advertiseDirect]
    split
    · exact gauged
    · split
      · exact gauged
      · split <;> exact gauged
  | _ => exact gauged

theorem parkedGaugeExact {ops : List (Op H)}
    (kept : Machine.along (step agentKeyTokenHash) (dropsNoQueue agentKeyTokenHash) {} ops) :
    let f := (run agentKeyTokenHash ({} : EdgeState H) ops).fallback
    f.tcpParkedGauge = (contents f.tcpAgents).length :=
  Machine.runAlong (fun s : EdgeState H => s.fallback.Gauged)
    (fun _ _ met gauged => gaugedApply agentKeyTokenHash met gauged) Fallback.gaugedNew kept

/- Two slots are parked, one agent goes away, a client takes the other slot, and the token is removed with nothing parked. -/
theorem parkedGaugeServed :
    let token : RoutingToken := .replicate 32 1
    let f := (run sampleHash ({} : EdgeState Unit)
      [.parkTcpAgent token 0,.parkTcpAgentChecked token .log 1,.dropReceiver 0,
        .deliverToTcpAgentDraining token (fun _ => false),.remove token 2]).fallback
    f.tcpParkedGauge = (contents f.tcpAgents).length :=
  parkedGaugeExact sampleHash ⟨trivial,trivial,trivial,trivial,by unfold dropsNoQueue; decide +kernel,trivial⟩

/- A teardown drops the queue of an agent that is still parked, and the gauge keeps its slot. -/
theorem parkedGaugeStale : ¬∀ ops : List (Op Unit),
    (run sampleHash ({} : EdgeState Unit) ops).fallback.tcpParkedGauge =
      (contents (run sampleHash ({} : EdgeState Unit) ops).fallback.tcpAgents).length := by
  intro exact'
  have stale := exact' [.parkTcpAgent (.replicate 32 1) 0,.remove (.replicate 32 1) 1]
  exact absurd stale (by decide +kernel)

end EdgeState
end CadsTunnel.Edge
