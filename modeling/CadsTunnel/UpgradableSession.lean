import CadsTunnel.CutoverAgreement
import CadsTunnel.Oneshot
import CadsTunnel.UpgradeCoordination

/-! A member of an upgradable session once the relay session stands: the pump, and beside
it the coordinator that negotiates over the pump's control channels, hands the direct
session to the pump's installer and asks for the cutover. Both run in one task, so what
the coordinator does between two of its waits is one step. The session returns with the
pump; the coordinator parks and never returns. -/
namespace CadsTunnel.Upgrade
open Words Cutover

/- What the coordinator waits for: its first poll, the endpoint of this member, a control message
of the peer, the probe of the endpoint on offer, or the direct session. -/
inductive Phase where
  | starting
  | discovering
  | listening
  | probing (endpoint : String)
  | establishing
  | parked
  deriving DecidableEq, Repr

structure Member where
  now : UInt64
  coord : UpgradeCoordinator
  phase : Phase
  direct : Oneshot Unit := {}
  side : Side := {}
  -- What the callbacks answered.
  endpoint : Option (Option String) := none
  reachable : Option Bool := none
  session : Option Bool := none

inductive MemberEvent where
  | pump (event : Event)
  | install
  | polled
  | discovered (endpoint : Option String)
  | received
  | probed (reachable : Bool)
  | established (session : Bool)
  deriving DecidableEq, Repr

/- The steps of the loops and of what they wait for. The driver's ends of the two control channels
are the coordinator's, and the installer waits for the one-shot. -/
def ofPump : Event → Bool
  | .send (.enqueue _) | .send .driverDrops | .read .driverTakes | .read .driverCloses | .install _ => false
  | _ => true

namespace Member

def start (role : Role) (coord : UpgradeCoordinator) (now : UInt64) : Member where
  now := now
  coord := coord
  phase := if role = .initiator then .starting else .listening

/- An unsent sender is dropped, which frees the installer. -/
def park (m : Member) : Member := { m with phase := .parked, direct := m.direct.dropSender }

/- The receiver is the pump's, which outlives the coordinator. -/
def ctl (m : Member) (instruction : PumpControl) : Member :=
  { m with side := { m.side with outbound := { m.side.outbound with
      control := m.side.outbound.control ++ [instruction]
      queued := m.side.outbound.queued ++ [instruction] } } }

def attemptFailed (m : Member) : Member := { m with coord := m.coord.recordAttemptFailed m.now }

def upgraded (m : Member) : Member := { m with coord := m.coord.confirmUpgraded m.now, phase := .establishing }

/- `drive_initiator_upgrade` up to its first wait. -/
def polled (m : Member) : Member := if m.coord.shouldAttempt m.now then { m with phase := .discovering } else m.park

def discovered (m : Member) (endpoint : Option String) : Member :=
  match endpoint with
  | some ep => { { m with endpoint := some endpoint }.ctl (.send (UpgradeMsg.offer ep).encode) with phase := .listening }
  | none => { m with endpoint := some endpoint }.attemptFailed.park

def answer (role : Role) (m : Member) (message : Option UpgradeMsg) : Member :=
  match role, message with
  | .initiator, some .ready => m.upgraded
  | .initiator, _ => m.attemptFailed.park
  | .responder, some (.offer endpoint) =>
    if offeredEndpointIsSafe endpoint then { m with phase := .probing endpoint }
    else (m.ctl (.send UpgradeMsg.abort.encode)).park
  | .responder, _ => m.park

def probed (m : Member) (reachable : Bool) : Member :=
  if reachable then ({ m with reachable := some reachable }.ctl (.send UpgradeMsg.ready.encode)).upgraded
  else ({ m with reachable := some reachable }.ctl (.send UpgradeMsg.abort.encode)).park

def established (m : Member) (session : Bool) : Member :=
  if session then ({ m with session := some session, direct := (m.direct.send ()).2 }.ctl .cutover).park
  else { m with session := some session }.park

def pumps (m : Member) (peer : Side) (event : Event) : Option Member :=
  (m.side.step peer event).map fun side => { m with side := side }

def installs (m : Member) (peer : Side) : Option Member :=
  match m.direct.poll with
  | (.received _,direct) => { m with direct := direct }.pumps peer (.install true)
  | (.closed,direct) => { m with direct := direct }.pumps peer (.install false)
  | _ => none

def receives (role : Role) (m : Member) (peer : Side) : Option Member :=
  match m.side.inbound.controlIn with
  | [] => none
  | payload :: _ => (m.pumps peer (.read .driverTakes)).map fun m => m.answer role (UpgradeMsg.decode payload)

def isProbing : Phase → Bool
  | .probing _ => true
  | _ => false

def step (role : Role) (m : Member) (peer : Side) (event : MemberEvent) : Option Member :=
  if m.side.result.isSome then none
  else
    match event with
    | .pump event => if ofPump event then m.pumps peer event else none
    | .install => m.installs peer
    | .polled => if m.phase = .starting then some m.polled else none
    | .discovered endpoint => if m.phase = .discovering then some (m.discovered endpoint) else none
    | .received => if m.phase = .listening then m.receives role peer else none
    | .probed reachable => if isProbing m.phase then some (m.probed reachable) else none
    | .established session => if m.phase = .establishing then some (m.established session) else none

/- A run against a peer that may be in any state at each step. -/
def run (role : Role) (m : Member) (steps : List (Side × MemberEvent)) : Option Member :=
  steps.foldlM (fun m step => m.step role step.1 step.2) m

/- All that a step can do. -/
inductive Moved (role : Role) (peer : Side) (m : Member) : Member → Prop where
  | pump (event : Event) (own : ofPump event) {side : Side} (stepped : m.side.step peer event = some side) :
    Moved role peer m { m with side := side }
  | install (arrived : Bool) {direct : Oneshot Unit} {side : Side} (settled : m.direct ≠ {}) (sender : direct.sender = m.direct.sender)
      (stepped : m.side.step peer (.install arrived) = some side) : Moved role peer m { m with direct := direct, side := side }
  | begin (first : m.phase = .starting) : Moved role peer m m.polled
  | discover (endpoint : Option String) (asked : m.phase = .discovering) : Moved role peer m (m.discovered endpoint)
  | receive (payload : Bytes) (rest : List Bytes) {side : Side} (waits : m.phase = .listening)
      (queue : m.side.inbound.controlIn = payload :: rest) (stepped : m.side.step peer (.read .driverTakes) = some side) :
    Moved role peer m ({ m with side := side }.answer role (UpgradeMsg.decode payload))
  | probe (endpoint : String) (reachable : Bool) (asked : m.phase = .probing endpoint) : Moved role peer m (m.probed reachable)
  | establish (session : Bool) (asked : m.phase = .establishing) : Moved role peer m (m.established session)

theorem movedByInstall {role : Role} {m next : Member} {peer : Side} (h : m.installs peer = some next) : Moved role peer m next := by
  have sender := m.direct.pollSender
  unfold installs at h
  split at h
  case h_1 value direct polled =>
    obtain ⟨side,stepped,rfl⟩ := Option.map_eq_some_iff.mp h
    refine .install true (fun fresh => ?_) (by rw [← sender, polled]) stepped
    simp [fresh, Oneshot.poll, Oneshot.look] at polled
  case h_2 direct polled =>
    obtain ⟨side,stepped,rfl⟩ := Option.map_eq_some_iff.mp h
    refine .install false (fun fresh => ?_) (by rw [← sender, polled]) stepped
    simp [fresh, Oneshot.poll, Oneshot.look] at polled
  case h_3 => contradiction

theorem moved {role : Role} {m next : Member} {peer : Side} {event : MemberEvent} (h : m.step role peer event = some next) :
    Moved role peer m next := by
  simp only [step] at h
  split at h <;> try contradiction
  cases event with
  | pump event =>
    simp only at h
    split at h <;> try contradiction
    case isTrue own =>
      obtain ⟨side,stepped,rfl⟩ := Option.map_eq_some_iff.mp h
      exact .pump event own stepped
  | install => exact movedByInstall h
  | polled =>
    simp only at h
    split at h <;> try contradiction
    case isTrue first =>
      cases Option.some.inj h
      exact .begin first
  | discovered endpoint =>
    simp only at h
    split at h <;> try contradiction
    case isTrue asked =>
      cases Option.some.inj h
      exact .discover endpoint asked
  | received =>
    simp only at h
    split at h <;> try contradiction
    case isTrue waits =>
      unfold receives at h
      split at h <;> try contradiction
      case h_2 payload rest queue =>
        obtain ⟨taking,taken,rfl⟩ := Option.map_eq_some_iff.mp h
        obtain ⟨side,stepped,rfl⟩ := Option.map_eq_some_iff.mp taken
        exact .receive payload rest waits queue stepped
  | probed reachable =>
    simp only at h
    split at h <;> try contradiction
    case isTrue asked =>
      cases Option.some.inj h
      cases at' : m.phase with
      | probing endpoint => exact .probe endpoint reachable at'
      | starting | discovering | listening | establishing | parked =>
        rw [at'] at asked
        contradiction
  | established session =>
    simp only at h
    split at h <;> try contradiction
    case isTrue asked =>
      cases Option.some.inj h
      exact .establish session asked

end Member

/- What the pump's own steps leave as it is. -/
structure Framed (x next : Side) : Prop where
  outbound : x.outbound.Kept next.outbound
  inbound : x.inbound.Kept next.inbound
  installer : next.installer = x.installer

theorem framed {x next peer : Side} {event : Event} (own : ofPump event) (h : x.step peer event = some next) : Framed x next := by
  cases event with
  | send event =>
    obtain ⟨o,stepped,rfl⟩ := Option.map_eq_some_iff.mp h
    refine ⟨Outbound.keptStep (fun c same => ?_) (fun same => ?_) stepped,⟨rfl,rfl⟩,rfl⟩
    · rw [same] at own
      contradiction
    · rw [same] at own
      contradiction
  | read event =>
    obtain ⟨i,stepped,rfl⟩ := Option.map_eq_some_iff.mp h
    refine ⟨⟨rfl,rfl,List.suffix_rfl⟩,Inbound.keptStep (fun same => ?_) (fun same => ?_) stepped,rfl⟩
    · rw [same] at own
      contradiction
    · rw [same] at own
      contradiction
  | install arrived => contradiction

/- The ends of the channels. The one-shot is as it was made until the coordinator parks, and its sender is
gone after that. -/
structure Wired (phase : Phase) (direct : Oneshot Unit) (side : Side) : Prop where
  sound : side.outbound.Sound
  asked : side.outbound.Asked
  sunk : side.inbound.Sunk
  gone : side.outbound.driverGone = false
  closed : side.inbound.driverClosed = false
  held : phase ≠ .parked → direct = {} ∧ side.installer = .waiting
  freed : phase = .parked → direct.sender = false ∧ (side.installer = .waiting → direct.receiver = .waiting)

/- Of the ends of the channels only the one-shot knows the phase. -/
theorem Wired.stay {phase other : Phase} {direct : Oneshot Unit} {side : Side} (wired : Wired phase direct side)
    (alive : phase ≠ .parked) (stays : other ≠ .parked) : Wired other direct side :=
  ⟨wired.sound,wired.asked,wired.sunk,wired.gone,wired.closed,fun _ => wired.held alive,fun parks => absurd parks stays⟩

theorem Wired.park {phase : Phase} {direct : Oneshot Unit} {side : Side} (wired : Wired phase direct side) :
    Wired .parked direct.dropSender side := by
  refine ⟨wired.sound,wired.asked,wired.sunk,wired.gone,wired.closed,fun alive => absurd rfl alive,fun _ => ⟨rfl,fun waits => ?_⟩⟩
  by_cases parked : phase = .parked
  · exact (wired.freed parked).2 waits
  · rw [(wired.held parked).1]
    rfl

/- The direct session is sent before the coordinator parks. -/
theorem Wired.hand {phase : Phase} {direct : Oneshot Unit} {side : Side} (wired : Wired phase direct side) (alive : phase ≠ .parked) :
    Wired .parked (direct.send ()).2.dropSender side := by
  refine ⟨wired.sound,wired.asked,wired.sunk,wired.gone,wired.closed,fun parked => absurd rfl parked,fun _ => ⟨rfl,fun _ => ?_⟩⟩
  rw [(wired.held alive).1]
  rfl

theorem Wired.ctl {m : Member} {phase : Phase} {direct : Oneshot Unit} (wired : Wired phase direct m.side) (instruction : PumpControl) :
    Wired phase direct (m.ctl instruction).side :=
  ⟨Outbound.soundEnqueue wired.sound instruction,Outbound.askedEnqueue wired.asked instruction,wired.sunk,wired.gone,wired.closed,
    wired.held,wired.freed⟩

theorem Wired.pump {phase : Phase} {direct : Oneshot Unit} {side next peer : Side} {event : Event} (wired : Wired phase direct side)
    (own : ofPump event) (h : side.step peer event = some next) : Wired phase direct next := by
  have framed := framed own h
  have held (alive : phase ≠ .parked) : direct = {} ∧ next.installer = .waiting :=
    ⟨(wired.held alive).1,framed.installer.trans (wired.held alive).2⟩
  have freed (parked : phase = .parked) : direct.sender = false ∧ (next.installer = .waiting → direct.receiver = .waiting) :=
    ⟨(wired.freed parked).1,fun waits => (wired.freed parked).2 (framed.installer.symm.trans waits)⟩
  have gone := framed.outbound.gone.trans wired.gone
  have closed := framed.inbound.closed.trans wired.closed
  cases event with
  | send event =>
    obtain ⟨o,stepped,rfl⟩ := Option.map_eq_some_iff.mp h
    refine ⟨Outbound.soundStep wired.sound stepped,?_,wired.sunk,gone,closed,held,freed⟩
    refine Outbound.askedStep wired.sound wired.asked (fun c same => ?_) (fun same => ?_) stepped
    · rw [same] at own
      contradiction
    · rw [same] at own
      contradiction
  | read event =>
    obtain ⟨i,stepped,rfl⟩ := Option.map_eq_some_iff.mp h
    exact ⟨wired.sound,wired.asked,Inbound.sunkStep wired.sunk stepped,gone,closed,held,freed⟩
  | install arrived => contradiction

theorem Wired.take {phase : Phase} {direct : Oneshot Unit} {side next peer : Side} (wired : Wired phase direct side)
    (h : side.step peer (.read .driverTakes) = some next) : Wired phase direct next := by
  obtain ⟨i,stepped,rfl⟩ := Option.map_eq_some_iff.mp h
  have sunk := Inbound.sunkStep wired.sunk stepped
  have closed : i.driverClosed = false := by
    simp only [Inbound.step] at stepped
    split at stepped <;> try contradiction
    split at stepped <;> try contradiction
    cases Option.some.inj stepped
    exact wired.closed
  exact ⟨wired.sound,wired.asked,sunk,wired.gone,closed,wired.held,wired.freed⟩

theorem Wired.install {phase : Phase} {direct later : Oneshot Unit} {side next peer : Side} {arrived : Bool}
    (wired : Wired phase direct side) (settled : direct ≠ {}) (sender : later.sender = direct.sender)
    (h : side.step peer (.install arrived) = some next) : Wired phase later next := by
  simp only [Side.step] at h
  split at h <;> try contradiction
  cases Option.some.inj h
  have parked : phase = .parked := by
    by_contra alive
    exact settled (wired.held alive).1
  refine ⟨wired.sound,wired.asked,wired.sunk,wired.gone,wired.closed,fun alive => absurd parked alive,fun _ => ⟨?_,fun waits => ?_⟩⟩
  · exact sender.trans (wired.freed parked).1
  · cases arrived <;> contradiction

namespace Member

theorem wiredAnswer {role : Role} {m : Member} (wired : Wired m.phase m.direct m.side) (alive : m.phase ≠ .parked)
    (message : Option UpgradeMsg) : Wired (m.answer role message).phase (m.answer role message).direct (m.answer role message).side := by
  unfold answer
  split
  · exact wired.stay alive (by simp [upgraded])
  · exact wired.park
  · split
    · exact wired.stay alive (by simp)
    · exact (wired.ctl _).park
  · exact wired.park

theorem wiredStep {role : Role} {m next : Member} {peer : Side} (wired : Wired m.phase m.direct m.side)
    (h : Moved role peer m next) : Wired next.phase next.direct next.side := by
  cases h with
  | pump event own stepped => exact wired.pump own stepped
  | install arrived settled sender stepped => exact wired.install settled sender stepped
  | begin first =>
    unfold polled
    split
    · exact wired.stay (by simp [first]) (by simp)
    · exact wired.park
  | discover endpoint asked =>
    cases endpoint with
    | some ep => exact (wired.ctl _).stay (by simp [asked]) (by simp [discovered])
    | none => exact wired.park
  | @receive payload rest side waits queue stepped =>
    exact wiredAnswer (m := { m with side := side }) (wired.take stepped) (by simp [waits]) (UpgradeMsg.decode payload)
  | probe endpoint reachable asked =>
    cases reachable with
    | true => exact (wired.ctl _).stay (by simp [asked]) (by simp [probed, upgraded])
    | false => exact (wired.ctl _).park
  | establish session asked =>
    cases session with
    | true => exact (wired.hand (by simp [asked])).ctl _
    | false => exact wired.park

/- What the coordinator may have asked of the pump. -/
def Told (role : Role) (m : Member) : PumpControl → Prop
  | .cutover => m.session = some true
  | .send payload =>
    role = .initiator ∧ (∃ endpoint, m.endpoint = some (some endpoint) ∧ payload = (UpgradeMsg.offer endpoint).encode) ∨
    role = .responder ∧ (payload = UpgradeMsg.abort.encode ∨ payload = UpgradeMsg.ready.encode ∧ m.reachable = some true)

/- The coordinator comes to wait for the peer: the responder for an offer, the initiator for the answer to its own. -/
def Waits (role : Role) (m : Member) : Prop := role = .responder ∨ ∃ endpoint, m.endpoint = some (some endpoint)

/- What the direct session is established on. -/
def Granted (role : Role) (m : Member) : Prop :=
  role = .initiator ∧ UpgradeMsg.ready.encode ∈ m.side.inbound.taken ∨ role = .responder ∧ m.reachable = some true

/- How far the negotiation has come, from what was taken from the peer and what the callbacks answered. -/
structure Negotiated (role : Role) (m : Member) : Prop where
  told : ∀ c ∈ m.side.outbound.queued, m.Told role c
  heard : m.Waits role → (m.phase = .listening ↔ m.side.inbound.taken = []) ∧ m.phase ≠ .starting ∧ m.phase ≠ .discovering
  quiet : ¬m.Waits role → m.side.inbound.taken = [] ∧ (m.phase = .starting ∨ m.phase = .discovering ∨ m.phase = .parked)
  probing : ∀ endpoint, m.phase = .probing endpoint → role = .responder
  unprobed : m.reachable ≠ none → (m.phase = .establishing ∨ m.phase = .parked) ∧ m.side.inbound.taken ≠ []
  unestablished : m.session ≠ none → m.phase = .parked
  granted : m.phase = .establishing ∨ m.session ≠ none → m.Granted role

theorem negotiatedStart (role : Role) (coord : UpgradeCoordinator) (now : UInt64) : (start role coord now).Negotiated role := by
  cases role with
  | initiator => exact ⟨by simp [start],by simp [start, Waits],by simp [start],by simp [start],by simp [start],by simp [start],by simp [start]⟩
  | responder => exact ⟨by simp [start],by simp [start],by simp [start, Waits],by simp [start],by simp [start],by simp [start],by simp [start]⟩

theorem wiredStart (role : Role) (coord : UpgradeCoordinator) (now : UInt64) :
    Wired (start role coord now).phase (start role coord now).direct (start role coord now).side := by
  refine ⟨Outbound.soundStart,Outbound.askedStart,Inbound.sunkStart,rfl,rfl,fun _ => ⟨rfl,rfl⟩,fun parked => ?_⟩
  cases role <;> contradiction

section Negotiation
variable {role : Role} {m : Member}

/- The negotiation reads of the pump only what was queued and taken. -/
theorem Negotiated.pump (negotiated : m.Negotiated role) {side : Side} (queued : side.outbound.queued = m.side.outbound.queued)
    (taken : side.inbound.taken = m.side.inbound.taken) (direct : Oneshot Unit) :
    ({ m with direct := direct, side := side } : Member).Negotiated role := by
  refine ⟨fun c mem => ?_,fun waits => ?_,fun idle => ?_,negotiated.probing,fun answered => ?_,negotiated.unestablished,fun asked => ?_⟩
  · exact negotiated.told c (queued ▸ mem)
  · rw [taken]
    exact negotiated.heard waits
  · rw [taken]
    exact negotiated.quiet idle
  · rw [taken]
    exact negotiated.unprobed answered
  · obtain initiator | responder := negotiated.granted asked
    · exact .inl (taken ▸ initiator)
    · exact .inr responder

/- Nor does it read the coordinator's book. -/
theorem Negotiated.book (negotiated : m.Negotiated role) (coord : UpgradeCoordinator) : ({ m with coord := coord } : Member).Negotiated role :=
  ⟨negotiated.told,negotiated.heard,negotiated.quiet,negotiated.probing,negotiated.unprobed,negotiated.unestablished,negotiated.granted⟩

theorem Negotiated.idle (negotiated : m.Negotiated role) (early : m.phase = .starting ∨ m.phase = .discovering) : ¬m.Waits role := by
  intro waits
  obtain ⟨-,started,asked⟩ := negotiated.heard waits
  exact early.elim started asked

theorem Negotiated.waits (negotiated : m.Negotiated role) (late : m.phase ≠ .starting ∧ m.phase ≠ .discovering ∧ m.phase ≠ .parked) :
    m.Waits role := by
  by_contra idle
  obtain starting | discovering | parked := (negotiated.quiet idle).2
  · exact late.1 starting
  · exact late.2.1 discovering
  · exact late.2.2 parked

theorem Negotiated.tookSome (negotiated : m.Negotiated role)
    (late : m.phase ≠ .starting ∧ m.phase ≠ .discovering ∧ m.phase ≠ .parked) (heard : m.phase ≠ .listening) :
    m.side.inbound.taken ≠ [] :=
  fun empty => heard ((negotiated.heard (negotiated.waits late)).1.mpr empty)

/- Before the session is established nothing is told of it. -/
theorem Negotiated.unasked (negotiated : m.Negotiated role) (alive : m.phase ≠ .parked) : m.session = none :=
  by_contra fun established => alive (negotiated.unestablished established)

theorem negotiatedBegin (negotiated : m.Negotiated role) (first : m.phase = .starting) : m.polled.Negotiated role := by
  have idle := negotiated.idle (.inl first)
  have empty := (negotiated.quiet idle).1
  have session := negotiated.unasked (by simp [first])
  have reachable : m.reachable = none := by
    by_contra answered
    simpa [first] using (negotiated.unprobed answered).1
  unfold polled
  split
  · exact ⟨negotiated.told,fun waits => absurd waits idle,fun _ => ⟨empty,by simp⟩,by simp,by simp [reachable],by simp [session],by simp [session]⟩
  · exact ⟨negotiated.told,fun waits => absurd waits idle,fun _ => ⟨empty,by simp [park]⟩,by simp [park],by simp [park, reachable],
      by simp [park, session],by simp [park, session]⟩

theorem negotiatedDiscover (negotiated : m.Negotiated role) (asked : m.phase = .discovering) (endpoint : Option String) :
    (m.discovered endpoint).Negotiated role := by
  have idle := negotiated.idle (.inr asked)
  have empty := (negotiated.quiet idle).1
  have session := negotiated.unasked (by simp [asked])
  have reachable : m.reachable = none := by
    by_contra answered
    simpa [asked] using (negotiated.unprobed answered).1
  have initiator : role = .initiator := by
    cases role with
    | initiator => rfl
    | responder => exact absurd (.inl rfl) idle
  -- Nothing was told before the endpoint was known.
  have silent : m.side.outbound.queued = [] := by
    rw [List.eq_nil_iff_forall_not_mem]
    intro c mem
    have told := negotiated.told c mem
    cases c with
    | cutover => simp [Told, session] at told
    | send payload =>
      obtain ⟨-,endpoint,known,-⟩ | ⟨responder,-⟩ := told
      · exact idle (.inr ⟨endpoint,known⟩)
      · exact idle (.inl responder)
  subst initiator
  cases endpoint with
  | some ep =>
    refine ⟨fun c mem => ?_,fun _ => ?_,fun idle => absurd (.inr ⟨ep,rfl⟩) idle,by simp [discovered],by simp [discovered, ctl, reachable],
      by simp [discovered, ctl, session],by simp [discovered, ctl, session]⟩
    · simp only [discovered, ctl, silent, List.nil_append, List.mem_singleton] at mem
      subst mem
      exact .inl ⟨rfl,ep,rfl,rfl⟩
    · simp [discovered, ctl, empty]
  | none =>
    have still : ¬(m.discovered none).Waits .initiator := by simp [Waits, discovered, attemptFailed, park]
    refine ⟨fun c mem => ?_,fun waits => absurd waits still,fun _ => ⟨empty,.inr (.inr rfl)⟩,by simp [discovered, park],
      by simp [discovered, attemptFailed, park, reachable],fun _ => rfl,by simp [discovered, attemptFailed, park, session]⟩
    rw [show (m.discovered none).side.outbound.queued = [] from silent] at mem
    contradiction

/- The one message that the coordinator takes. -/
theorem negotiatedTake (negotiated : m.Negotiated role) (waits : m.phase = .listening) {payload : Bytes} {side : Side}
    (queued : side.outbound.queued = m.side.outbound.queued) (taken : side.inbound.taken = m.side.inbound.taken ++ [payload]) :
    (({ m with side := side } : Member).answer role (UpgradeMsg.decode payload)).Negotiated role := by
  have waiting := negotiated.waits (by simp [waits])
  have session := negotiated.unasked (by simp [waits])
  have reachable : m.reachable = none := by
    by_contra answered
    simpa [waits] using (negotiated.unprobed answered).1
  have heard : side.inbound.taken ≠ [] := by simp [taken]
  have told (c : PumpControl) (mem : c ∈ side.outbound.queued) : m.Told role c := negotiated.told c (queued ▸ mem)
  have leaves : ({ m with side := side } : Member).park.Negotiated role :=
    ⟨told,fun _ => by simp [park, heard],fun idle => absurd waiting idle,by simp [park],by simp [park, reachable],fun _ => rfl,
      by simp [park, session]⟩
  unfold answer
  split
  case h_1 ready =>
    have read : payload = UpgradeMsg.ready.encode := (UpgradeMsg.decodeSome ready).symm
    refine ⟨told,fun _ => by simp [upgraded, heard],fun idle => absurd waiting idle,by simp [upgraded],by simp [upgraded, reachable],
      by simp [upgraded, session],fun _ => .inl ⟨rfl,?_⟩⟩
    simp [upgraded, taken, read]
  case h_2 => exact leaves.book (m.coord.recordAttemptFailed m.now)
  case h_3 endpoint offer =>
    split
    · exact ⟨told,fun _ => by simp [heard],fun idle => absurd waiting idle,fun _ _ => rfl,by simp [reachable],by simp [session],by simp [session]⟩
    · refine ⟨fun c mem => ?_,fun _ => by simp [ctl, park, heard],fun idle => absurd waiting idle,by simp [park],
        by simp [ctl, park, reachable],fun _ => rfl,by simp [ctl, park, session]⟩
      obtain before | last := List.mem_append.mp mem
      · exact told c before
      · rw [List.mem_singleton.mp last]
        exact .inr ⟨rfl,.inl rfl⟩
  case h_4 => exact leaves

theorem negotiatedProbe (negotiated : m.Negotiated role) {endpoint : String} (asked : m.phase = .probing endpoint) (reachable : Bool) :
    (m.probed reachable).Negotiated role := by
  have responder := negotiated.probing endpoint asked
  have heard := negotiated.tookSome (by simp [asked]) (by simp [asked])
  have session := negotiated.unasked (by simp [asked])
  have unanswered : m.reachable = none := by
    by_contra answered
    simpa [asked] using (negotiated.unprobed answered).1
  subst responder
  have told (c : PumpControl) (mem : c ∈ m.side.outbound.queued) : c = .send UpgradeMsg.abort.encode := by
    have before := negotiated.told c mem
    cases c with
    | cutover => simp [Told, session] at before
    | send payload => simpa [Told, unanswered] using before
  cases reachable with
  | true =>
    refine ⟨fun c mem => ?_,fun _ => by simp [probed, ctl, upgraded, heard],fun idle => absurd (.inl rfl) idle,by simp [probed, upgraded],
      fun _ => ⟨.inl rfl,heard⟩,by simp [probed, ctl, upgraded, session],fun _ => .inr ⟨rfl,rfl⟩⟩
    obtain before | last := List.mem_append.mp mem
    · rw [told c before]
      exact .inr ⟨rfl,.inl rfl⟩
    · rw [List.mem_singleton.mp last]
      exact .inr ⟨rfl,.inr ⟨rfl,rfl⟩⟩
  | false =>
    refine ⟨fun c mem => ?_,fun _ => by simp [probed, ctl, park, heard],fun idle => absurd (.inl rfl) idle,by simp [probed, park],
      fun _ => ⟨.inr rfl,heard⟩,fun _ => rfl,by simp [probed, ctl, park, session]⟩
    obtain before | last := List.mem_append.mp mem
    · rw [told c before]
      exact .inr ⟨rfl,.inl rfl⟩
    · rw [List.mem_singleton.mp last]
      exact .inr ⟨rfl,.inl rfl⟩

theorem negotiatedEstablish (negotiated : m.Negotiated role) (asked : m.phase = .establishing) (session : Bool) :
    (m.established session).Negotiated role := by
  have waiting := negotiated.waits (by simp [asked])
  have heard := negotiated.tookSome (by simp [asked]) (by simp [asked])
  have granted := negotiated.granted (.inl asked)
  have unknown := negotiated.unasked (by simp [asked])
  have told (c : PumpControl) (mem : c ∈ m.side.outbound.queued) : ∃ payload, c = .send payload ∧ m.Told role c := by
    have before := negotiated.told c mem
    cases c with
    | cutover => simp [Told, unknown] at before
    | send payload => exact ⟨payload,rfl,before⟩
  cases session with
  | true =>
    refine ⟨fun c mem => ?_,fun _ => by simp [established, ctl, park, heard],fun idle => absurd waiting idle,by simp [established, park],
      fun _ => ⟨.inr rfl,heard⟩,fun _ => rfl,fun _ => granted⟩
    obtain before | last := List.mem_append.mp mem
    · obtain ⟨payload,rfl,before⟩ := told c before
      exact before
    · rw [List.mem_singleton.mp last]
      rfl
  | false =>
    refine ⟨fun c mem => ?_,fun _ => by simp [established, park, heard],fun idle => absurd waiting idle,by simp [established, park],
      fun _ => ⟨.inr rfl,heard⟩,fun _ => rfl,fun _ => granted⟩
    obtain ⟨payload,rfl,before⟩ := told c mem
    exact before

theorem takesFront {x next peer : Side} {payload : Bytes} {rest : List Bytes} (queue : x.inbound.controlIn = payload :: rest)
    (h : x.step peer (.read .driverTakes) = some next) :
    next.outbound.queued = x.outbound.queued ∧ next.inbound.taken = x.inbound.taken ++ [payload] := by
  obtain ⟨i,stepped,rfl⟩ := Option.map_eq_some_iff.mp h
  simp only [Inbound.step, queue] at stepped
  split at stepped <;> try contradiction
  cases Option.some.inj stepped
  exact ⟨rfl,rfl⟩

theorem negotiatedStep {next : Member} {peer : Side} (negotiated : m.Negotiated role) (h : Moved role peer m next) :
    next.Negotiated role := by
  cases h with
  | pump event own stepped =>
    have framed := framed own stepped
    exact negotiated.pump framed.outbound.queued framed.inbound.taken m.direct
  | @install arrived direct side settled sender stepped =>
    simp only [Side.step] at stepped
    split at stepped <;> try contradiction
    cases Option.some.inj stepped
    exact @Negotiated.pump _ _ negotiated { m.side with installer := if arrived then .installed else .dropped } rfl rfl direct
  | begin first => exact negotiatedBegin negotiated first
  | discover endpoint asked => exact negotiatedDiscover negotiated asked endpoint
  | receive payload rest waits queue stepped =>
    obtain ⟨queued,taken⟩ := takesFront queue stepped
    exact negotiatedTake negotiated waits queued taken
  | probe endpoint reachable asked => exact negotiatedProbe negotiated asked reachable
  | establish session asked => exact negotiatedEstablish negotiated asked session

end Negotiation

/- What every member keeps, whatever its peer does. -/
structure Kept (role : Role) (m : Member) : Prop where
  wired : Wired m.phase m.direct m.side
  negotiated : m.Negotiated role

theorem keptStep {role : Role} {m next : Member} {peer : Side} {event : MemberEvent} (kept : m.Kept role)
    (h : m.step role peer event = some next) : next.Kept role :=
  ⟨wiredStep kept.wired (moved h),negotiatedStep kept.negotiated (moved h)⟩

theorem keptRun {role : Role} {m next : Member} {steps : List (Side × MemberEvent)} (kept : m.Kept role)
    (ran : m.run role steps = some next) : next.Kept role := by
  induction steps generalizing m with
  | nil =>
    cases Option.some.inj ran
    exact kept
  | cons step rest ih =>
    obtain ⟨middle,first,later⟩ := Option.bind_eq_some_iff.mp ran
    exact ih (keptStep kept first) later

theorem keptStart (role : Role) (coord : UpgradeCoordinator) (now : UInt64) : (start role coord now).Kept role :=
  ⟨wiredStart role coord now,negotiatedStart role coord now⟩

end Member
end CadsTunnel.Upgrade
