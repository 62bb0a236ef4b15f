import CadsTunnel.EdgeRouting

/-! What a teardown leaves behind. A revoked token stays without registration, slot, route,
candidate and endpoint through every later guarded step, and the other tokens keep theirs.
Every removal that leaves a token with neither registration nor slot clears the rest of its
tunnel, with one exception: a switch to enforcement evicts and clears nothing else. -/
namespace CadsTunnel.Edge
open OrderedMap Words
open Std (ExtTreeMap ExtTreeSet)

/- Nothing of the tunnel can be reached. -/
structure Tunnel.Down {H : Type} (t : Tunnel H) : Prop where
  live : t.live = []
  parked : t.parked = []
  candidate : t.candidate = none
  direct : t.direct = none
  hosts : t.hosts = ∅

/- A registration or a slot is there. -/
def Tunnel.Busy {H : Type} (t : Tunnel H) : Prop := t.live ≠ [] ∨ t.parked ≠ []

namespace EdgeState
variable {H : Type} (agentKeyTokenHash : RoutingToken → Key)

theorem tornDown (t : Tunnel H) : t.torn.Down := ⟨rfl,rfl,rfl,rfl,rfl⟩

/- In a reachable registry the gauges count and the routes are indexed. -/
structure Sound (s : EdgeState H) : Prop where
  counted : s.registrations.Counted
  indexed : s.hostRoutes.Indexed

theorem soundNew : Sound ({} : EdgeState H) := ⟨Registrations.countedNew,HostRoutes.indexedNew⟩

theorem soundApply {s : EdgeState H} (sound : s.Sound) (op : Op H) : (s.apply agentKeyTokenHash op).Sound :=
  ⟨countedApply agentKeyTokenHash sound.counted op,indexedApply agentKeyTokenHash sound.indexed op⟩

theorem soundRun (ops : List (Op H)) : (run agentKeyTokenHash ({} : EdgeState H) ops).Sound :=
  Machine.runInvariant (fun s : EdgeState H => s.Sound) (fun _ op sound => soundApply agentKeyTokenHash sound op) soundNew ops

/- The routes of a token are its index entry. -/
theorem routeless {s : EdgeState H} (sound : s.Sound) {token : RoutingToken} (none' : (s.tunnel token).hosts = ∅) (host : String) :
    s.hostRoutes.hosts[host]? ≠ some token := by
  intro bound
  have owned := (sound.indexed.inverse host token).mp bound
  rw [show s.hostRoutes.owned token = ∅ from none'] at owned
  simp at owned

theorem downStep {s : EdgeState H} (sound : s.Sound) {op : Op H} (guarded : op.guarded) {token : RoutingToken}
    (revoked : s.isRevoked token) (down : (s.tunnel token).Down) :
    (s.apply agentKeyTokenHash op).isRevoked token ∧ ((s.apply agentKeyTokenHash op).tunnel token).Down := by
  have barred : s.isRevoked token ≠ false := by simp [revoked]
  have step := effect agentKeyTokenHash sound.counted op token
  change ((s.apply agentKeyTokenHash op).tunnel token).revoked = true ∧ _
  generalize (s.apply agentKeyTokenHash op).tunnel token = t at step
  cases step with
  | same => exact ⟨revoked,down⟩
  | registered unchecked valid => exact absurd (valid guarded) barred
  | admitted call valid admission => exact absurd valid barred
  | parked lenient valid => exact absurd (valid guarded) barred
  | unparked fewer =>
    rw [down.parked, List.sublist_nil] at fewer
    exact ⟨revoked,down.live,fewer,down.candidate,down.direct,down.hosts⟩
  | @hosts hosts changed =>
    have same : hosts = ∅ := by
      by_contra grown
      exact barred (changed (down.hosts ▸ grown))
    exact ⟨revoked,down.live,down.parked,down.candidate,down.direct,same⟩
  | direct changed =>
    refine ⟨revoked,down.live,down.parked,down.candidate,?_,down.hosts⟩
    obtain same | gone | valid := changed
    · exact same.trans down.direct
    · exact gone
    · exact absurd valid barred
  | dropped =>
    simp only [Tunnel.forget, Tunnel.dropped, Tunnel.left, down.live, List.isEmpty_nil, Bool.true_or, if_true, List.filter_nil]
    exact ⟨revoked,rfl,down.parked,down.candidate,down.direct,down.hosts⟩
  | torn => exact ⟨revoked,tornDown _⟩
  | revoked call => exact ⟨rfl,rfl,rfl,rfl,rfl,rfl⟩
  | seeded unguarded => exact absurd guarded (by simp [unguarded])
  | enforced switch newly =>
    refine ⟨revoked,?_,rfl,down.candidate,down.direct,down.hosts⟩
    simp [Tunnel.enforced, down.live]
  | swept kept => exact ⟨revoked,down.live,down.parked,down.candidate,down.direct,down.hosts⟩

theorem downRun {s : EdgeState H} (sound : s.Sound) {ops : List (Op H)} (guarded : ∀ op ∈ ops, op.guarded)
    {token : RoutingToken} (revoked : s.isRevoked token) (down : (s.tunnel token).Down) :
    (run agentKeyTokenHash s ops).Sound ∧ ((run agentKeyTokenHash s ops).tunnel token).Down := by
  induction ops generalizing s with
  | nil => exact ⟨sound,down⟩
  | cons op rest ih =>
    obtain ⟨still,next⟩ := downStep agentKeyTokenHash sound (guarded op List.mem_cons_self) revoked down
    exact ih (soundApply agentKeyTokenHash sound op) (fun later mem => guarded later (List.mem_cons_of_mem _ mem)) still next

theorem revocationFinal (before : List (Op H)) (token : RoutingToken) (now : UInt64) {after : List (Op H)}
    (guarded : ∀ op ∈ after, op.guarded) :
    let s := run agentKeyTokenHash ({} : EdgeState H) before
    let r := s.revokeToken token now
    let f := run agentKeyTokenHash r after
    (f.registrations.live token = [] ∧ f.fallback.parked token = [] ∧
      (∀ host : String, f.hostRoutes.hosts[host]? ≠ some token) ∧ f.candidates[token]? = none ∧ f.direct[token]? = none) ∧
    ∀ other, other ≠ token →
      r.registrations.live other = s.registrations.live other ∧ r.fallback.parked other = s.fallback.parked other ∧
      (∀ host : String, r.hostRoutes.hosts[host]? = some other ↔ s.hostRoutes.hosts[host]? = some other) ∧
      r.candidates[other]? = s.candidates[other]? ∧ r.direct[other]? = s.direct[other]? := by
  intro s r f
  have sound : s.Sound := soundRun agentKeyTokenHash before
  have revoked : r.Sound := soundApply agentKeyTokenHash sound (.revokeToken token now)
  have own : r.tunnel token = { (s.tunnel token).torn with revoked := true } :=
    (tunnelRevoke s token now token).trans (if_pos rfl)
  refine ⟨?_,?_⟩
  · have marked : r.isRevoked token := congrArg Tunnel.revoked own
    have down : (r.tunnel token).Down := own ▸ ⟨rfl,rfl,rfl,rfl,rfl⟩
    obtain ⟨still,last⟩ := downRun agentKeyTokenHash revoked guarded marked down
    exact ⟨last.live,last.parked,routeless still last.hosts,last.candidate,last.direct⟩
  · intro other different
    have same : r.tunnel other = s.tunnel other := (tunnelRevoke s token now other).trans (if_neg different)
    refine ⟨congrArg Tunnel.live same,congrArg Tunnel.parked same,?_,congrArg Tunnel.candidate same,congrArg Tunnel.direct same⟩
    intro host
    have owned : r.hostRoutes.owned other = s.hostRoutes.owned other := congrArg Tunnel.hosts same
    rw [revoked.indexed.inverse, sound.indexed.inverse, owned]

/- A registered and routed token is revoked; its agent then tries every way back. -/
theorem revocationHolds :
    let token : RoutingToken := .replicate 32 1
    let addr : SocketAddr := ⟨.v4 (.replicate 4 127),7844,0⟩
    let s := run sampleHash ({} : EdgeState Unit) [.registerWithCandidate token () addr 0,.registerHost "app.example" token]
    let r := s.revokeToken token 1
    let f := run sampleHash r [.registerWithCandidateChecked token () addr .log none 2,.parkTcpAgentChecked token .log 2,
      .registerHost "app.example" token,.advertiseDirect token addr [] []]
    (f.registrations.live token = [] ∧ f.fallback.parked token = [] ∧
      (∀ host : String, f.hostRoutes.hosts[host]? ≠ some token) ∧ f.candidates[token]? = none ∧ f.direct[token]? = none) ∧
    ∀ other, other ≠ token →
      r.registrations.live other = s.registrations.live other ∧ r.fallback.parked other = s.fallback.parked other ∧
      (∀ host : String, r.hostRoutes.hosts[host]? = some other ↔ s.hostRoutes.hosts[host]? = some other) ∧
      r.candidates[other]? = s.candidates[other]? ∧ r.direct[other]? = s.direct[other]? :=
  revocationFinal sampleHash _ _ 1 (by simp [Op.guarded])

/- While a registration or a slot is there, so is the start of the streak. -/
def Streaking (t : Tunnel H) : Prop := t.Busy → t.since ≠ none

theorem liveBusy (s : EdgeState H) (token : RoutingToken) : s.isLive token ↔ (s.tunnel token).Busy := by
  rw [tunnelLive]
  simp only [Bool.or_eq_true, Bool.not_eq_true', List.isEmpty_eq_false_iff, Tunnel.Busy]

theorem streakingStep {s : EdgeState H} (sound : s.Sound) (op : Op H) {token : RoutingToken}
    (streaking : Streaking (s.tunnel token)) : Streaking ((s.apply agentKeyTokenHash op).tunnel token) := by
  have step := effect agentKeyTokenHash sound.counted op token
  generalize (s.apply agentKeyTokenHash op).tunnel token = t at step
  intro busy
  cases step with
  | same => exact streaking busy
  | registered unchecked valid => simp [Tunnel.registered]
  | admitted call valid admission =>
    cases admission <;> simp [Tunnel.registered]
  | parked lenient valid => simp [Tunnel.withParked]
  | unparked fewer =>
    refine streaking (busy.imp_right ?_)
    intro some' gone
    rw [gone, List.sublist_nil] at fewer
    exact some' fewer
  | hosts changed => exact streaking busy
  | direct changed => exact streaking busy
  | @dropped id =>
    generalize forgotten : (s.tunnel token).forget id = before at busy ⊢
    have streaking : Streaking before := forgotten ▸ streaking
    unfold Tunnel.dropped at busy ⊢
    split
    case isTrue remains =>
      simp only [remains, if_true] at busy
      refine streaking (busy.imp_left ?_)
      intro some' gone
      exact some' (by simp [Tunnel.left, gone])
    case isFalse last =>
      simp only [last, Bool.false_eq_true, if_false] at busy
      split
      case isTrue waiting =>
        simp only [waiting, if_true] at busy
        exact streaking (busy.imp_left (fun some' => absurd rfl some'))
      case isFalse idle =>
        simp only [idle, Bool.false_eq_true, if_false] at busy
        obtain some' | some' := busy
        · exact absurd rfl some'
        · exact absurd (by simpa using idle) some'
  | torn => simp [Tunnel.Busy, Tunnel.torn] at busy
  | revoked call => simp [Tunnel.Busy, Tunnel.torn] at busy
  | seeded unguarded => exact streaking busy
  | enforced switch newly =>
    obtain some' | some' := busy
    · refine streaking (.inl ?_)
      intro gone
      exact some' (by simp [Tunnel.enforced, gone])
    · exact absurd rfl some'
  | swept kept =>
    rw [kept ((liveBusy s token).mpr busy)]
    exact streaking busy

theorem streakingRun (ops : List (Op H)) (token : RoutingToken) :
    Streaking ((run agentKeyTokenHash ({} : EdgeState H) ops).tunnel token) := by
  have both : (run agentKeyTokenHash ({} : EdgeState H) ops).Sound ∧
      Streaking ((run agentKeyTokenHash ({} : EdgeState H) ops).tunnel token) :=
    Machine.runInvariant (fun s : EdgeState H => s.Sound ∧ Streaking (s.tunnel token))
      (fun s op holds => ⟨soundApply agentKeyTokenHash holds.1 op,streakingStep agentKeyTokenHash holds.1 op holds.2⟩)
      ⟨soundNew,by simp [Streaking, Tunnel.Busy, tunnel, Registrations.live, Fallback.parked, queueAt]⟩ ops
  exact both.2

end EdgeState

/- The steps that take registrations or slots away from a token. -/
def Op.removes {H : Type} : Op H → Bool
  | .removeRegistration .. | .remove .. | .revokeToken .. | .setAgentKeyPolicy .. | .reloadAgentKeyPolicyFromFile .. => true
  | _ => false

namespace EdgeState
variable {H : Type} (agentKeyTokenHash : RoutingToken → Key)

/- A token that loses its last registration or slot in the step has nothing else left. -/
def Complete (s : EdgeState H) (op : Op H) : Prop :=
  ∀ token, s.isLive token → (s.apply agentKeyTokenHash op).isLive token = false →
    (∀ host : String, (s.apply agentKeyTokenHash op).hostRoutes.hosts[host]? ≠ some token) ∧
    (s.apply agentKeyTokenHash op).candidates[token]? = none ∧ (s.apply agentKeyTokenHash op).direct[token]? = none ∧
    (s.apply agentKeyTokenHash op).sessions.connectedSince[token]? = none

/- The policy a step puts in force, if it is a switch. -/
def switchesTo (s : EdgeState H) (op : Op H) (next : AgentKeyPolicy) : Prop :=
  match op with
  | .setAgentKeyPolicy policy => next = policy
  | .reloadAgentKeyPolicyFromFile file => ∃ path text enforceSet, s.agentKeyPolicy.enforceFile = some path ∧ file = .ok text ∧
      parseEnforceList text = .ok enforceSet ∧ next = { s.agentKeyPolicy with enforceSet := enforceSet }
  | _ => False

/- A switch to enforcement that meets a live tunnel without a proven registration. -/
def Strips (s : EdgeState H) (op : Op H) (token : RoutingToken) : Prop :=
  ∃ next, s.switchesTo op next ∧ s.newlyEnforced agentKeyTokenHash next token ∧ s.isLive token ∧
    ∀ e ∈ s.registrations.live token, e.1 ∉ (s.tunnel token).proven

theorem switchApply {s : EdgeState H} {op : Op H} {next : AgentKeyPolicy} (switch : s.switchesTo op next) :
    s.apply agentKeyTokenHash op = (s.setAgentKeyPolicy agentKeyTokenHash next).2 := by
  unfold switchesTo at switch
  split at switch
  case h_1 policy => rw [switch]; rfl
  case h_2 file =>
    obtain ⟨path,text,enforceSet,stored,rfl,parsed,rfl⟩ := switch
    simp only [apply, reloadAgentKeyPolicyFromFile, stored, parsed]
  case h_3 => exact absurd switch id

/- A reload that changes the registry is a switch. -/
theorem reloadSwitch (s : EdgeState H) (file : Except String String) :
    s.apply agentKeyTokenHash (.reloadAgentKeyPolicyFromFile file) = s ∨
    ∃ next, s.switchesTo (.reloadAgentKeyPolicyFromFile file) next := by
  simp only [apply, reloadAgentKeyPolicyFromFile]
  split
  case h_1 => exact .inl rfl
  case h_2 path stored =>
    split
    case h_1 => exact .inl rfl
    case h_2 text =>
      split
      case h_1 => exact .inl rfl
      case h_2 enforceSet parsed => exact .inr ⟨_,path,text,enforceSet,stored,rfl,parsed,rfl⟩

/- What the switch leaves of a stripped tunnel is idle, and its streak runs on. -/
theorem strippedIdle {s : EdgeState H} {op : Op H} {token : RoutingToken} (strips : s.Strips agentKeyTokenHash op token) :
    ¬((s.apply agentKeyTokenHash op).tunnel token).Busy ∧
    ((s.apply agentKeyTokenHash op).tunnel token).since = (s.tunnel token).since := by
  obtain ⟨next,switch,newly,_,unproven⟩ := strips
  have after : (s.apply agentKeyTokenHash op).tunnel token = (s.tunnel token).enforced := by
    rw [switchApply agentKeyTokenHash switch, tunnelPolicy, if_pos newly]
  rw [after]
  refine ⟨?_,rfl⟩
  simp only [Tunnel.Busy, Tunnel.enforced, not_or, not_not, and_true, List.filter_eq_nil_iff]
  intro e mem proven
  exact unproven e mem (by simpa using proven)

/- The tunnel of a token that a switch leaves idle was stripped. -/
theorem idleStripped {s : EdgeState H} {op : Op H} {next : AgentKeyPolicy} (switch : s.switchesTo op next)
    {token : RoutingToken} (busy : (s.tunnel token).Busy) (idle : ¬((s.apply agentKeyTokenHash op).tunnel token).Busy) :
    s.Strips agentKeyTokenHash op token := by
  have after := tunnelPolicy agentKeyTokenHash s next token
  rw [← switchApply agentKeyTokenHash switch] at after
  split at after
  case isTrue newly =>
    refine ⟨next,switch,newly,(liveBusy s token).mpr busy,?_⟩
    intro e mem proven
    refine idle (after ▸ .inl ?_)
    exact List.ne_nil_of_mem (List.mem_filter.mpr ⟨mem,by simpa using proven⟩)
  case isFalse => exact absurd (after ▸ busy) idle

/- A removed registration that was the last one, with no slot parked, clears the tunnel. -/
theorem droppedClear {t : Tunnel H} {id : Nat} (busy : t.Busy) (idle : ¬(t.dropped id).Busy) :
    (t.dropped id).hosts = ∅ ∧ (t.dropped id).candidate = none ∧ (t.dropped id).direct = none ∧ (t.dropped id).since = none := by
  unfold Tunnel.dropped at idle ⊢
  split
  case isTrue remains =>
    simp only [remains, if_true, Tunnel.Busy, not_or, not_not] at idle
    simp only [idle.1, List.isEmpty_nil, Bool.not_true, Bool.or_false, List.isEmpty_iff] at remains
    exact absurd busy (by simp [Tunnel.Busy, remains, idle.2])
  case isFalse last =>
    simp only [last, Bool.false_eq_true, if_false] at idle
    split
    case isTrue waiting =>
      simp only [waiting, if_true, Tunnel.Busy, not_or, not_not] at idle
      exact absurd waiting (by simp [idle.2])
    case isFalse => exact ⟨rfl,rfl,rfl,rfl⟩

theorem teardownComplete (before : List (Op H)) {op : Op H} (removal : op.removes) :
    Complete agentKeyTokenHash (run agentKeyTokenHash {} before) op ↔
      ∀ token, ¬Strips agentKeyTokenHash (run agentKeyTokenHash {} before) op token := by
  have sound := soundRun agentKeyTokenHash before
  have streaking := streakingRun agentKeyTokenHash before
  generalize run agentKeyTokenHash ({} : EdgeState H) before = s at sound streaking
  have after := soundApply agentKeyTokenHash sound op
  constructor
  · intro complete token strips
    obtain ⟨idle,since⟩ := strippedIdle agentKeyTokenHash strips
    obtain ⟨_,_,_,alive,_⟩ := strips
    have ended : (s.apply agentKeyTokenHash op).isLive token = false :=
      Bool.eq_false_iff.mpr (fun still => idle ((liveBusy _ token).mp still))
    obtain ⟨_,_,_,cleared⟩ := complete token alive ended
    exact streaking token ((liveBusy s token).mp alive) (since ▸ cleared)
  · intro kept token alive ended
    have busy := (liveBusy s token).mp alive
    have idle : ¬((s.apply agentKeyTokenHash op).tunnel token).Busy := by
      rw [← liveBusy, ended]
      simp
    have clear : ((s.apply agentKeyTokenHash op).tunnel token).hosts = ∅ ∧
        ((s.apply agentKeyTokenHash op).tunnel token).candidate = none ∧
        ((s.apply agentKeyTokenHash op).tunnel token).direct = none ∧
        ((s.apply agentKeyTokenHash op).tunnel token).since = none := by
      cases op with
      | removeRegistration owner id now =>
        have step := tunnelRemoveRegistration sound.counted owner id now token
        simp only [apply] at idle ⊢
        rw [step] at idle ⊢
        split
        case isTrue same =>
          subst same
          rw [if_pos rfl] at idle
          have busy : ((s.tunnel token).forget id).Busy := busy
          exact droppedClear busy idle
        case isFalse different =>
          rw [if_neg different] at idle
          exact absurd busy idle
      | remove owner now =>
        have step := tunnelRemove s owner .removed now token
        simp only [apply, remove] at idle ⊢
        rw [step] at idle ⊢
        split
        case isTrue => exact ⟨rfl,rfl,rfl,rfl⟩
        case isFalse different =>
          rw [if_neg different] at idle
          exact absurd busy idle
      | revokeToken owner now =>
        have step := tunnelRevoke s owner now token
        simp only [apply] at idle ⊢
        rw [step] at idle ⊢
        split
        case isTrue => exact ⟨rfl,rfl,rfl,rfl⟩
        case isFalse different =>
          rw [if_neg different] at idle
          exact absurd busy idle
      | setAgentKeyPolicy next =>
        have switch : s.switchesTo (.setAgentKeyPolicy next) next := rfl
        exact absurd (idleStripped agentKeyTokenHash switch busy idle) (kept token)
      | reloadAgentKeyPolicyFromFile file =>
        obtain same | ⟨next,switch⟩ := reloadSwitch agentKeyTokenHash s file
        · rw [same] at idle
          exact absurd busy idle
        · exact absurd (idleStripped agentKeyTokenHash switch busy idle) (kept token)
      | _ => exact absurd removal (by simp [Op.removes])
    exact ⟨routeless after clear.1,clear.2.1,clear.2.2.1,clear.2.2.2⟩

/- The only agent of a routed tunnel is removed. -/
theorem teardownRemoved :
    let token : RoutingToken := .replicate 32 1
    let addr : SocketAddr := ⟨.v4 (.replicate 4 127),7844,0⟩
    Complete sampleHash (run sampleHash ({} : EdgeState Unit)
      [.registerWithCandidateChecked token () addr .log none 0,.registerHost "app.example" token]) (.remove token 1) :=
  (teardownComplete sampleHash _ rfl).mpr (fun _ strips => strips.choose_spec.1)

/- The only agent of a tunnel has shown no proof when its policy turns to enforcement. -/
theorem teardownStripped :
    ¬∀ (before : List (Op Unit)) (op : Op Unit), op.removes → Complete sampleHash (run sampleHash {} before) op := by
  intro complete
  have cleared := complete [.registerWithCandidateChecked (.replicate 32 1) () ⟨.v4 (.replicate 4 127),7844,0⟩ .log none 0]
    (.setAgentKeyPolicy { default := .enforce }) rfl (.replicate 32 1) (by decide +kernel) (by decide +kernel)
  exact absurd cleared.2.2.2 (by decide +kernel)

end EdgeState
end CadsTunnel.Edge
