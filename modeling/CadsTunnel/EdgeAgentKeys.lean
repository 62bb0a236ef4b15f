import CadsTunnel.EdgeRevocation

/-! The agent key of a tunnel over runs of the checked steps. Under enforcement every live
registration is proven for the pin and nothing is parked; a pin only moves forward in time,
and only a strictly newer binding moves it to another key, in the step that takes every
earlier registration away. -/
namespace CadsTunnel.Edge
open OrderedMap Words
open Std (ExtTreeMap ExtTreeSet)

namespace EdgeState
variable {H : Type} (agentKeyTokenHash : RoutingToken → Key)

/- What a proven binding does to a pin: it sets the first one, moves it forward, or takes it over. -/
theorem pinAccepted {entry after : AgentKeyPin} {proof : ProvenKey} (outcome : pinProven entry proof = (.accepted,after)) :
    after.provenIds = entry.provenIds ∧
    ∀ before, entry.pin = some before → ∃ moved, after.pin = some moved ∧ moved.key = before.key ∧
      before.issuedAt ≤ moved.issuedAt := by
  unfold pinProven at outcome
  split at outcome
  case h_1 absent =>
    cases (Prod.mk.inj outcome).2
    refine ⟨rfl,?_⟩
    intro before pinned
    simp [absent] at pinned
  case h_2 current pinned =>
    split at outcome
    case isTrue same =>
      have moved := (Prod.mk.inj outcome).2
      split at moved
      case isTrue newer =>
        subst moved
        refine ⟨rfl,?_⟩
        intro before held
        cases Option.some.inj (pinned.symm.trans held)
        exact ⟨proof,rfl,same.symm,UInt64.le_of_lt newer⟩
      case isFalse =>
        subst moved
        refine ⟨rfl,?_⟩
        intro before held
        exact ⟨before,held,rfl,UInt64.le_refl _⟩
    case isFalse =>
      split at outcome
      · exact absurd (Prod.mk.inj outcome).1 (by simp)
      · split at outcome <;> exact absurd (Prod.mk.inj outcome).1 (by simp)

theorem pinRepinned {entry after : AgentKeyPin} {proof : ProvenKey} (outcome : pinProven entry proof = (.repinned,after)) :
    after = { pin := some proof } ∧ ∃ before, entry.pin = some before ∧ before.issuedAt < proof.issuedAt := by
  unfold pinProven at outcome
  split at outcome
  case h_1 => exact absurd (Prod.mk.inj outcome).1 (by simp)
  case h_2 current pinned =>
    split at outcome
    · exact absurd (Prod.mk.inj outcome).1 (by simp)
    · split at outcome
      case isTrue newer =>
        cases (Prod.mk.inj outcome).2
        exact ⟨rfl,current,pinned,newer⟩
      case isFalse => split at outcome <;> exact absurd (Prod.mk.inj outcome).1 (by simp)

/- Under enforcement nothing unproven is left, and what is proven is live. -/
structure Keyed (enforcing : Prop) (t : Tunnel H) : Prop where
  proven : enforcing → ∀ e ∈ t.live, e.1 ∈ t.proven
  idle : enforcing → t.parked = []
  live : ∀ id ∈ t.proven, id ∈ t.live.map Prod.fst

theorem keyedEnforced {enforcing : Prop} {t : Tunnel H} (keyed : Keyed enforcing t) (next : Prop) : Keyed next t.enforced where
  proven _ e mem := by
    have kept : e.1 ∈ t.proven := by simpa using (List.mem_filter.mp mem).2
    exact kept
  idle _ := rfl
  live id proven := by
    obtain ⟨e,mem,same⟩ := List.mem_map.mp (keyed.live id proven)
    refine List.mem_map.mpr ⟨e,List.mem_filter.mpr ⟨mem,?_⟩,same⟩
    have proven : id ∈ t.proven := proven
    simpa [same] using proven

theorem keyedAdmitted {enforcing : Prop} {t t' : Tunnel H} {mode : Bool} {id : Nat} {handle : H} {candidate : SocketAddr}
    {proof : Option ProvenKey} {now : UInt64} (keyed : Keyed enforcing t) (judged : mode = false → ¬enforcing)
    (admission : Admission mode id handle candidate proof now t t') : Keyed enforcing t' := by
  have member : ∀ (entry : AgentKeyPin) (other : Nat),
      other ∈ entry.provenIds.insert id ↔ other = id ∨ other ∈ entry.provenIds := by
    intro entry other
    rw [ExtTreeSet.mem_insert, Std.compare_eq_iff_eq]
    exact or_congr_left eq_comm
  cases admission with
  | unproven lenient =>
    refine ⟨fun strict => absurd strict (judged lenient),fun strict => absurd strict (judged lenient),?_⟩
    intro other proven
    exact List.mem_map.mpr (by
      obtain ⟨e,mem,same⟩ := List.mem_map.mp (keyed.live other proven)
      exact ⟨e,List.mem_append_left _ mem,same⟩)
  | @accepted key entry given outcome =>
    have same := (pinAccepted outcome).1
    have before : (t.pin.getD {}).provenIds = t.proven := by
      simp only [Tunnel.proven]
      cases t.pin <;> rfl
    rw [before] at same
    refine ⟨?_,keyed.idle,?_⟩
    · intro strict e mem
      refine (member entry e.1).mpr ?_
      obtain old | fresh := List.mem_append.mp mem
      · exact .inr (same ▸ keyed.proven strict e old)
      · exact .inl (by rw [List.mem_singleton.mp fresh])
    · intro other proven
      obtain rfl | old := (member entry other).mp proven
      · exact List.mem_map.mpr ⟨(other,handle),List.mem_append_right _ List.mem_cons_self,rfl⟩
      · obtain ⟨e,mem,named⟩ := List.mem_map.mp (keyed.live other (same ▸ old))
        exact List.mem_map.mpr ⟨e,List.mem_append_left _ mem,named⟩
  | @repinned key entry given outcome =>
    obtain ⟨rfl,_⟩ := pinRepinned outcome
    refine ⟨?_,keyed.idle,?_⟩
    · intro strict e mem
      refine (member _ e.1).mpr (.inl ?_)
      rw [List.mem_singleton.mp mem]
    · intro other proven
      obtain rfl | old := (member _ other).mp proven
      · exact List.mem_map.mpr ⟨(other,handle),List.mem_cons_self,rfl⟩
      · simp at old

theorem keyedTorn {enforcing : Prop} {t : Tunnel H} (live : t.live = []) (parked : t.parked = []) (pin : t.pin = none) :
    Keyed enforcing t where
  proven _ e mem := by simp [live] at mem
  idle _ := parked
  live id proven := by simp [Tunnel.proven, pin] at proven

theorem droppedRest (t : Tunnel H) (id : Nat) : (t.dropped id).parked = t.parked ∧ (t.dropped id).pin = t.pin := by
  unfold Tunnel.dropped
  split
  · exact ⟨rfl,rfl⟩
  · split <;> exact ⟨rfl,rfl⟩

theorem keyedDropped {enforcing : Prop} {t : Tunnel H} (keyed : Keyed enforcing t) (id : Nat) :
    Keyed enforcing ((t.forget id).dropped id) := by
  have live : ((t.forget id).dropped id).live = t.live.filter (fun e => e.1 ≠ id) := by
    unfold Tunnel.dropped
    split
    case isTrue => rfl
    case isFalse last =>
      have gone : t.live.filter (fun e => e.1 ≠ id) = [] := by
        simp only [Bool.or_eq_true, not_or, Bool.not_eq_true', Bool.not_eq_false] at last
        exact List.isEmpty_iff.mp last.2
      split <;> exact gone.symm
  have rest := droppedRest (t.forget id) id
  have proven : ∀ other, other ∈ ((t.forget id).dropped id).proven ↔ other ≠ id ∧ other ∈ t.proven := by
    intro other
    rw [Tunnel.proven, rest.2]
    simp only [Tunnel.forget, Tunnel.proven]
    cases t.pin with
    | none => simp
    | some pin =>
      simp only [Option.map_some, Option.getD_some, ExtTreeSet.mem_erase, Std.compare_eq_iff_eq, ne_eq]
      exact and_congr_left' (not_congr eq_comm)
  refine ⟨?_,fun strict => rest.1.trans (keyed.idle strict),?_⟩
  · intro strict e mem
    rw [live] at mem
    obtain ⟨mem,different⟩ := List.mem_filter.mp mem
    exact (proven e.1).mpr ⟨by simpa using different,keyed.proven strict e mem⟩
  · intro other held
    obtain ⟨different,held⟩ := (proven other).mp held
    obtain ⟨e,mem,rfl⟩ := List.mem_map.mp (keyed.live other held)
    rw [live]
    exact List.mem_map.mpr ⟨e,List.mem_filter.mpr ⟨mem,by simpa using different⟩,rfl⟩

/- A step that is no switch leaves the policy as it is. -/
theorem policyStep (s : EdgeState H) (op : Op H) :
    (s.apply agentKeyTokenHash op).agentKeyPolicy = s.agentKeyPolicy ∨ ∃ next, s.switchesTo op next := by
  cases op with
  | registerWithCandidateChecked token handle candidate mode proof now =>
    exact .inl (checkedParts agentKeyTokenHash s token handle candidate mode proof now rfl).1
  | removeRegistration token id now => exact .inl (removeRegistrationParts s token id now rfl).1
  | setAgentKeyPolicy next => exact .inr ⟨next,rfl⟩
  | reloadAgentKeyPolicyFromFile file =>
    obtain same | switch := reloadSwitch agentKeyTokenHash s file
    · exact .inl (congrArg agentKeyPolicy same)
    · exact .inr switch
  | registerUnlessRevoked token handle now =>
    left
    simp only [apply, registerUnlessRevoked]
    split <;> rfl
  | registerWithCandidateUnlessRevoked token handle candidate now =>
    left
    simp only [apply, registerWithCandidateUnlessRevoked]
    split <;> rfl
  | parkTcpAgentUnlessRevoked token now =>
    left
    simp only [apply, parkTcpAgentUnlessRevoked]
    split <;> rfl
  | parkTcpAgentChecked token mode now =>
    left
    simp only [apply, parkTcpAgentChecked]
    split
    · rfl
    · split <;> rfl
  | registerHost host token =>
    left
    simp only [apply, registerHost]
    split
    · rfl
    · split
      · rfl
      · split <;> rfl
  | advertiseDirect token addr cert order =>
    left
    simp only [apply, advertiseDirect]
    split
    · rfl
    · split
      · rfl
      · split <;> rfl
  | _ => exact .inl rfl

theorem keyedStep {s : EdgeState H} (sound : s.Sound) {op : Op H} (checked : op.checked) {token : RoutingToken}
    (keyed : Keyed (s.agentKeyModeFor agentKeyTokenHash token = .enforce) (s.tunnel token)) :
    Keyed ((s.apply agentKeyTokenHash op).agentKeyModeFor agentKeyTokenHash token = .enforce)
      ((s.apply agentKeyTokenHash op).tunnel token) := by
  obtain same | ⟨next,switch⟩ := policyStep agentKeyTokenHash s op
  · -- The mode of the token is unchanged, so the invariant only has to follow the tunnel.
    have mode : (s.apply agentKeyTokenHash op).agentKeyModeFor agentKeyTokenHash token =
        s.agentKeyModeFor agentKeyTokenHash token := by simp only [agentKeyModeFor, same]
    rw [mode]
    have step := effect agentKeyTokenHash sound.counted op token
    generalize after : (s.apply agentKeyTokenHash op).tunnel token = t at step
    cases step with
    | same => exact keyed
    | registered unchecked valid => exact absurd checked (by simp [unchecked])
    | admitted call valid admission =>
      refine keyedAdmitted keyed (fun lenient => ?_) admission
      rw [modeLenient agentKeyTokenHash (by simpa using lenient)]
      simp
    | parked lenient valid =>
      have mild := lenient checked
      exact ⟨fun strict => absurd (mild.symm.trans strict) (by simp),
        fun strict => absurd (mild.symm.trans strict) (by simp),keyed.live⟩
    | unparked fewer =>
      refine ⟨keyed.proven,fun strict => ?_,keyed.live⟩
      rw [keyed.idle strict, List.sublist_nil] at fewer
      exact fewer
    | hosts changed => exact ⟨keyed.proven,keyed.idle,keyed.live⟩
    | direct changed => exact ⟨keyed.proven,keyed.idle,keyed.live⟩
    | @dropped id => exact keyedDropped keyed id
    | torn => exact keyedTorn rfl rfl rfl
    | revoked call => exact keyedTorn rfl rfl rfl
    | seeded unguarded => exact ⟨keyed.proven,keyed.idle,keyed.live⟩
    | enforced switch newly => exact keyedEnforced keyed _
    | swept kept => exact ⟨keyed.proven,keyed.idle,keyed.live⟩
  · have after := tunnelPolicy agentKeyTokenHash s next token
    rw [← switchApply agentKeyTokenHash switch] at after
    have policy : (s.apply agentKeyTokenHash op).agentKeyPolicy = next := by
      rw [switchApply agentKeyTokenHash switch, policySet]
    split at after
    case isTrue newly => exact after ▸ keyedEnforced keyed _
    case isFalse unmoved =>
      rw [after]
      have before : (s.apply agentKeyTokenHash op).agentKeyModeFor agentKeyTokenHash token = .enforce →
          s.agentKeyModeFor agentKeyTokenHash token = .enforce := by
        intro strict
        simp only [agentKeyModeFor, policy] at strict
        simp only [newlyEnforced, strict, decide_true, Bool.true_and, decide_eq_true_eq] at unmoved
        cases mode : s.agentKeyModeFor agentKeyTokenHash token with
        | log => exact absurd mode unmoved
        | enforce => rfl
      exact ⟨fun strict => keyed.proven (before strict),fun strict => keyed.idle (before strict),keyed.live⟩

/- The key a token is bound to. -/
def pinOf (s : EdgeState H) (token : RoutingToken) : Option ProvenKey := s.agentPins[token]?.bind AgentKeyPin.pin

/- The binding moves forward, and to another key only by a newer proof that takes over every registration. -/
def Advances (op : Op H) (token : RoutingToken) (live live' : List (Nat × H)) (before after : ProvenKey) : Prop :=
  before.issuedAt ≤ after.issuedAt ∧
  (after.key ≠ before.key → before.issuedAt < after.issuedAt ∧
    (∃ handle candidate mode now, op = .registerWithCandidateChecked token handle candidate mode (some after) now) ∧
    ∀ e ∈ live, ∀ e' ∈ live', e.1 ≠ e'.1)

theorem advancesSame (op : Op H) (token : RoutingToken) (live live' : List (Nat × H)) {before after : ProvenKey}
    (same : some after = some before) : Advances op token live live' before after := by
  cases Option.some.inj same
  exact ⟨UInt64.le_refl _,fun changed => absurd rfl changed⟩

theorem pinStep {s : EdgeState H} (sound : s.Sound) {op : Op H} {token : RoutingToken} {before after : ProvenKey}
    (pinned : s.pinOf token = some before) (still : (s.apply agentKeyTokenHash op).pinOf token = some after) :
    Advances op token (s.tunnel token).live ((s.apply agentKeyTokenHash op).tunnel token).live before after := by
  have step := effect agentKeyTokenHash sound.counted op token
  change ((s.apply agentKeyTokenHash op).tunnel token).pin.bind AgentKeyPin.pin = some after at still
  generalize (s.apply agentKeyTokenHash op).tunnel token = t at step still
  have held : (s.tunnel token).pin.bind AgentKeyPin.pin = some before := pinned
  cases step with
  | admitted call valid admission =>
    cases admission with
    | unproven lenient => exact advancesSame op token _ _ (still.symm.trans held)
    | @accepted key entry given outcome =>
      have entryPin : ((s.tunnel token).pin.getD {}).pin = some before := by
        obtain ⟨pin,found,bound⟩ := Option.bind_eq_some_iff.mp held
        rw [found]
        exact bound
      obtain ⟨moved,set,same,newer⟩ := (pinAccepted outcome).2 before entryPin
      cases Option.some.inj (set.symm.trans still)
      exact ⟨newer,fun changed => absurd same changed⟩
    | @repinned key entry given outcome =>
      obtain ⟨rfl,old,bound,newer⟩ := pinRepinned outcome
      cases Option.some.inj still
      have same : old = before := by
        obtain ⟨pin,found,bound'⟩ := Option.bind_eq_some_iff.mp held
        rw [found] at bound
        exact Option.some.inj (bound.symm.trans bound')
      subst same
      refine ⟨UInt64.le_of_lt newer,fun _ => ⟨newer,⟨_,_,_,_,given ▸ call⟩,?_⟩⟩
      intro e mem e' fresh
      rw [List.mem_singleton.mp fresh]
      exact Nat.ne_of_lt (Registrations.liveIssued sound.counted mem)
  | @dropped id =>
    rw [(droppedRest _ id).2] at still
    refine advancesSame op token _ _ (still.symm.trans (Eq.trans ?_ held))
    simp only [Tunnel.forget]
    cases (s.tunnel token).pin <;> rfl
  | torn => exact absurd still (by simp [Tunnel.torn])
  | revoked call => exact absurd still (by simp [Tunnel.torn])
  | _ => exact advancesSame op token _ _ (still.symm.trans held)

theorem keyedRun {ops : List (Op H)} (checked : ∀ op ∈ ops, op.checked) (token : RoutingToken) :
    Keyed ((run agentKeyTokenHash ({} : EdgeState H) ops).agentKeyModeFor agentKeyTokenHash token = .enforce)
      ((run agentKeyTokenHash ({} : EdgeState H) ops).tunnel token) := by
  induction ops using List.reverseRecOn with
  | nil =>
    refine keyedTorn ?_ ?_ ?_
    · simp [run, Machine.run, tunnel, Registrations.live, queueAt]
    · simp [run, Machine.run, tunnel, Fallback.parked, queueAt]
    · simp [run, Machine.run, tunnel]
  | append_singleton ops op ih =>
    have earlier := ih (fun call mem => checked call (List.mem_append_left _ mem))
    rw [run, Machine.runNext]
    exact keyedStep agentKeyTokenHash (soundRun agentKeyTokenHash ops) (checked op (by simp)) earlier

theorem agentKeyEnforcement {ops : List (Op H)} (checked : ∀ op ∈ ops, op.checked) (token : RoutingToken) :
    let s := run agentKeyTokenHash ({} : EdgeState H) ops
    (s.agentKeyModeFor agentKeyTokenHash token = .enforce →
      (∀ e ∈ s.registrations.live token, ∃ pin, s.agentPins[token]? = some pin ∧ e.1 ∈ pin.provenIds) ∧
      s.fallback.parked token = []) ∧
    (∀ pin, s.agentPins[token]? = some pin → ∀ id ∈ pin.provenIds, id ∈ (s.registrations.live token).map Prod.fst) ∧
    ∀ op before after, s.pinOf token = some before →
      (s.apply agentKeyTokenHash op).pinOf token = some after →
      before.issuedAt ≤ after.issuedAt ∧
      (after.key ≠ before.key → before.issuedAt < after.issuedAt ∧
        (∃ handle candidate mode now, op = .registerWithCandidateChecked token handle candidate mode (some after) now) ∧
        ∀ e ∈ s.registrations.live token, ∀ e' ∈ (s.apply agentKeyTokenHash op).registrations.live token, e.1 ≠ e'.1) := by
  intro s
  have keyed := keyedRun agentKeyTokenHash checked token
  refine ⟨?_,?_,?_⟩
  · intro strict
    refine ⟨?_,keyed.idle strict⟩
    intro e mem
    have proven : e.1 ∈ (s.agentPins[token]?.map AgentKeyPin.provenIds).getD ∅ := keyed.proven strict e mem
    cases found : s.agentPins[token]? with
    | none => simp [found] at proven
    | some pin => exact ⟨pin,rfl,by simpa [found] using proven⟩
  · intro pin found id proven
    refine keyed.live id ?_
    have same : (s.tunnel token).proven = pin.provenIds := by simp only [Tunnel.proven, tunnel, found]; rfl
    exact same ▸ proven
  · intro op before after pinned still
    exact pinStep agentKeyTokenHash (soundRun agentKeyTokenHash ops) pinned still

/- An unproven agent beside a proven one when enforcement starts, then a newer binding for another key. -/
theorem agentKeyRepinned :
    let token : RoutingToken := .replicate 32 1
    let addr : SocketAddr := ⟨.v4 (.replicate 4 127),7844,0⟩
    let ops : List (Op Unit) := [.registerWithCandidateChecked token () addr .log none 0,
      .registerWithCandidateChecked token () addr .log (some ⟨.replicate 32 7,10⟩) 1,
      .setAgentKeyPolicy { default := .enforce },
      .registerWithCandidateChecked token () addr .log (some ⟨.replicate 32 8,11⟩) 2]
    let s := run sampleHash ({} : EdgeState Unit) ops
    s.agentKeyModeFor sampleHash token = .enforce ∧ (s.registrations.live token).map Prod.fst = [3] ∧
    ((∀ e ∈ s.registrations.live token, ∃ pin, s.agentPins[token]? = some pin ∧ e.1 ∈ pin.provenIds) ∧
      s.fallback.parked token = []) :=
  ⟨by decide +kernel,by decide +kernel,(agentKeyEnforcement sampleHash (by simp [Op.checked]) _).1 (by decide +kernel)⟩

end EdgeState
end CadsTunnel.Edge
