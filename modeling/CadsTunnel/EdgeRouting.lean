import CadsTunnel.EdgeGauges

/-! The hostname routes over whole runs: the forward map and the reverse index stay
inverses, and a name changes hands only through a teardown of the token that holds it. -/
namespace CadsTunnel.Edge
open OrderedMap Hostnames
open Std (ExtTreeMap)

/- The steps that can clear the routes of a token. -/
def Op.tearsDown {H : Type} (op : Op H) (token : RoutingToken) : Bool :=
  match op with
  | .removeRegistration owner _ _ => owner = token
  | .remove owner _ => owner = token
  | .revokeToken owner _ => owner = token
  | _ => false

namespace EdgeState
variable {H : Type} (agentKeyTokenHash : RoutingToken → Key)

/- All that one step can do to the routes. The tier flags and the grants decide nothing here. -/
inductive Routed (op : Op H) (r : HostRoutes) : HostRoutes → Prop where
  | same {gelbHosts : HashSet String} {hostAuth : Option (HashMap String RoutingToken)} :
      Routed op r { r with gelbHosts := gelbHosts, hostAuth := hostAuth }
  | bound {host key : String} {token : RoutingToken} {next : HostRoutes} (normal : normalizeHostname host = some key)
      (ok : r.bind key token = .ok next) : Routed op r next
  | cleared {token : RoutingToken} {hostAuth : Option (HashMap String RoutingToken)} (tears : op.tearsDown token) :
      Routed op r { r.clearHostsFor token with hostAuth := hostAuth }

theorem policyRoutes (s : EdgeState H) (next : AgentKeyPolicy) :
    (s.setAgentKeyPolicy agentKeyTokenHash next).2.hostRoutes = s.hostRoutes :=
  policyInvariant agentKeyTokenHash s next (fun m => m.hostRoutes = s.hostRoutes) rfl (fun _ _ _ same => same)

theorem routed (s : EdgeState H) (op : Op H) : Routed op s.hostRoutes (s.apply agentKeyTokenHash op).hostRoutes := by
  cases op with
  | registerUnlessRevoked token handle now =>
    simp only [apply, registerUnlessRevoked]
    split <;> exact .same
  | registerWithCandidateUnlessRevoked token handle candidate now =>
    simp only [apply, registerWithCandidateUnlessRevoked]
    split <;> exact .same
  | registerWithCandidateChecked token handle candidate mode proof now =>
    obtain ⟨_,_,same,_⟩ := checkedParts agentKeyTokenHash s token handle candidate mode proof now rfl
    simp only [apply, same]
    exact .same
  | parkTcpAgentUnlessRevoked token now =>
    simp only [apply, parkTcpAgentUnlessRevoked]
    split <;> exact .same
  | parkTcpAgentChecked token mode now =>
    simp only [apply, parkTcpAgentChecked]
    split
    · exact .same
    · split <;> exact .same
  | registerHost host token =>
    simp only [apply, registerHost]
    split
    case h_1 => exact .same
    case h_2 key normal =>
      split
      case isTrue => exact .same
      case isFalse =>
        split
        case h_1 => exact .same
        case h_2 routes ok => exact .bound normal ok
  | setCertTier host gelb =>
    simp only [apply, HostRoutes.setCertTier]
    split <;> exact .same
  | authorizeHost host token =>
    simp only [apply, HostRoutes.authorizeHost]
    split <;> exact .same
  | unauthorizeHost host =>
    simp only [apply, HostRoutes.unauthorizeHost]
    split <;> exact .same
  | advertiseDirect token addr cert order =>
    simp only [apply, advertiseDirect]
    split
    · exact .same
    · split
      · exact .same
      · split <;> exact .same
  | removeRegistration token id now =>
    obtain ⟨_,_,_,⟨same,_⟩ | ⟨cleared,_⟩⟩ := removeRegistrationParts s token id now rfl
    · simp only [apply, same]
      exact .same
    · simp only [apply, cleared]
      exact .cleared (by simp [Op.tearsDown])
  | remove token now => exact .cleared (by simp [Op.tearsDown])
  | revokeToken token now => exact .cleared (by simp [Op.tearsDown])
  | setAgentKeyPolicy next => exact policyRoutes agentKeyTokenHash s next ▸ .same
  | reloadAgentKeyPolicyFromFile file =>
    have switched := reloadCases agentKeyTokenHash s file
    simp only [apply]
    obtain same | ⟨_,_,_,_,switch⟩ := switched
    · rw [same]
      exact .same
    · rw [switch, policyRoutes]
      exact .same
  | _ => exact .same

theorem indexedApply {s : EdgeState H} (indexed : s.hostRoutes.Indexed) (op : Op H) :
    (s.apply agentKeyTokenHash op).hostRoutes.Indexed := by
  generalize effect : (s.apply agentKeyTokenHash op).hostRoutes = next
  have step := effect ▸ routed agentKeyTokenHash s op
  cases step with
  | same => exact ⟨indexed.inverse,indexed.canonical⟩
  | bound normal ok => exact HostRoutes.indexedBind indexed normal ok
  | @cleared token hostAuth tears =>
    have cleared := HostRoutes.indexedClear indexed token
    exact ⟨cleared.inverse,cleared.canonical⟩

/- A bound name stays with its token or goes away in a teardown of that token. -/
theorem bindingStep {s : EdgeState H} (indexed : s.hostRoutes.Indexed) (op : Op H) {host : String} {token : RoutingToken}
    (bound : s.hostRoutes.hosts[host]? = some token) :
    (s.apply agentKeyTokenHash op).hostRoutes.hosts[host]? = some token ∨
    op.tearsDown token ∧ (s.apply agentKeyTokenHash op).hostRoutes.hosts[host]? = none := by
  generalize effect : (s.apply agentKeyTokenHash op).hostRoutes = next
  have step := effect ▸ routed agentKeyTokenHash s op
  cases step with
  | same => exact .inl bound
  | @bound name key owner _ normal ok =>
    obtain ⟨free,rfl⟩ := HostRoutes.bindCases ok
    left
    simp only [lookupInsert]
    split
    case isTrue same =>
      subst same
      rw [free token bound]
    case isFalse => exact bound
  | @cleared owner hostAuth tears =>
    have lookup := HostRoutes.clearedLookup s.hostRoutes owner host
    split at lookup
    case isTrue mine =>
      have same := (indexed.inverse host owner).mpr mine
      cases Option.some.inj (same.symm.trans bound)
      exact .inr ⟨tears,lookup⟩
    case isFalse => exact .inl (lookup.trans bound)

theorem indexedRun {s : EdgeState H} (indexed : s.hostRoutes.Indexed) (ops : List (Op H)) :
    (run agentKeyTokenHash s ops).hostRoutes.Indexed :=
  Machine.runInvariant (fun s : EdgeState H => s.hostRoutes.Indexed)
    (fun _ op holds => indexedApply agentKeyTokenHash holds op) indexed ops

/- Between two holders of a name lies a teardown of the first that took the name away. -/
theorem bindingRun {s : EdgeState H} (indexed : s.hostRoutes.Indexed) {host : String} {token other : RoutingToken}
    (bound : s.hostRoutes.hosts[host]? = some token) {later : List (Op H)}
    (rebound : (run agentKeyTokenHash s later).hostRoutes.hosts[host]? = some other) (different : other ≠ token) :
    ∃ before op after, later = before ++ op :: after ∧ op.tearsDown token ∧
      (run agentKeyTokenHash s before).hostRoutes.hosts[host]? = some token ∧
      (run agentKeyTokenHash s (before ++ [op])).hostRoutes.hosts[host]? = none := by
  induction later generalizing s with
  | nil => exact absurd (Option.some.inj (rebound.symm.trans bound)) different
  | cons op rest ih =>
    obtain kept | ⟨tears,gone⟩ := bindingStep agentKeyTokenHash indexed op bound
    · obtain ⟨before,torn,after,rfl,tears,held,gone⟩ := ih (indexedApply agentKeyTokenHash indexed op) kept rebound
      exact ⟨op :: before,torn,after,rfl,tears,held,gone⟩
    · exact ⟨[],op,rest,rfl,tears,bound,gone⟩

theorem refusedHost (s : EdgeState H) (host : String) (token : RoutingToken) {refusal : HostBindRefusal}
    (refused : (s.registerHost host token).1 = .error refusal) : (s.registerHost host token).2 = s := by
  unfold registerHost at refused ⊢
  split
  case h_1 => rfl
  case h_2 key normal =>
    simp only [normal] at refused
    split
    case isTrue => rfl
    case isFalse valid =>
      simp only [valid, Bool.false_eq_true, if_false] at refused
      split
      case h_1 => rfl
      case h_2 routes ok => simp [ok] at refused

theorem hostnameRouting (ops : List (Op H)) :
    let s := run agentKeyTokenHash ({} : EdgeState H) ops
    (∀ (host : String) (token : RoutingToken), s.hostRoutes.hosts[host]? = some token ↔ host ∈ s.hostRoutes.owned token) ∧
    (∀ (host : String) (token : RoutingToken), s.hostRoutes.hosts[host]? = some token → normalizeHostname host = some host) ∧
    (∀ (host : String) (token other : RoutingToken) (later : List (Op H)), s.hostRoutes.hosts[host]? = some token →
      (run agentKeyTokenHash s later).hostRoutes.hosts[host]? = some other → other ≠ token →
      ∃ before op after, later = before ++ op :: after ∧ op.tearsDown token ∧
        (run agentKeyTokenHash s before).hostRoutes.hosts[host]? = some token ∧
        (run agentKeyTokenHash s (before ++ [op])).hostRoutes.hosts[host]? = none) ∧
    (∀ (host : String) (token : RoutingToken) (refusal : HostBindRefusal),
      (s.registerHost host token).1 = .error refusal → (s.registerHost host token).2 = s) := by
  have indexed := indexedRun agentKeyTokenHash (s := ({} : EdgeState H)) HostRoutes.indexedNew ops
  refine ⟨indexed.inverse,indexed.canonical,?_,?_⟩
  · intro host token other later bound rebound different
    exact bindingRun agentKeyTokenHash indexed bound rebound different
  · intro host token refusal refused
    exact refusedHost _ host token refused

end EdgeState
end CadsTunnel.Edge
