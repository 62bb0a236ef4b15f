import CadsTunnel.UpgradableSession

/-! Two members that run the upgradable session against each other. What one coordinator
takes the other has asked for, so a session that a member established rests on an offer,
an endpoint on offer that could be reached and the answer to it. Each member cuts over on
its own establishment: the fallback to the relay holds as long as the two come out alike. -/
namespace CadsTunnel.Upgrade
open Words Cutover

structure Pair where
  initiator : Member
  responder : Member

namespace Pair

def start (initiator responder : UpgradeCoordinator) (initiatorNow responderNow : UInt64) : Pair :=
  ⟨.start .initiator initiator initiatorNow,.start .responder responder responderNow⟩

def step (s : Pair) : Role × MemberEvent → Option Pair
  | (.initiator,event) => (s.initiator.step .initiator s.responder.side event).map fun m => { s with initiator := m }
  | (.responder,event) => (s.responder.step .responder s.initiator.side event).map fun m => { s with responder := m }

def run (s : Pair) (events : List (Role × MemberEvent)) : Option Pair := events.foldlM step s

/- A callback came back without what it was asked for. -/
def Failed (s : Pair) : Prop :=
  s.initiator.endpoint = some none ∨ s.responder.reachable = some false ∨ s.initiator.session = some false ∨
    s.responder.session = some false

/- One member established the direct session and the other did not. -/
def Parted (s : Pair) : Prop :=
  s.initiator.session = some true ∧ s.responder.session = some false ∨
    s.initiator.session = some false ∧ s.responder.session = some true

end Pair

/- One direction, from `x` to `y`, all of it over the relay: what was read from the local side is in the relay's records,
the records that were opened are what the peer's local side took or is being handed, and the next one is taken as well. -/
structure OnRelay (x y : Side) : Prop where
  unswitched : x.outbound.onDirect = false
  unsealed : x.outbound.sealed .direct = []
  whole : ¬x.outbound.Failed → plain (x.outbound.sealed .relay) = x.outbound.consumed
  carried : y.inbound.output <+: x.outbound.consumed
  delivered : ¬y.inbound.Failed →
    y.inbound.output ++ y.inbound.phase.rest = plain ((x.outbound.sealed .relay).take (y.inbound.opened .relay))
  unmarked : y.inbound.onDirect = false ∧ (¬y.inbound.Failed → y.inbound.phase ≠ .awaiting)
  next : y.inbound.phase = .reading → y.inbound.opened .relay < (x.outbound.sealed .relay).length → ∀ error,
    ¬(y.inbound.arrive x.outbound.sealed (.record .relay (y.inbound.opened .relay)) error).Failed

namespace Member

theorem ctlStep {m : Member} (open' : m.side.outbound.driverGone = false) (instruction : PumpControl) (peer : Side) :
    m.side.step peer (.send (.enqueue instruction)) = some (m.ctl instruction).side := by
  simp [Side.step, Outbound.step, open', ctl]

theorem linkedCtl {m : Member} {peer : Side} (linked : Linked m.side peer) (open' : m.side.outbound.driverGone = false)
    (instruction : PumpControl) : Linked (m.ctl instruction).side peer :=
  linkedStep linked (ctlStep open' instruction peer)

/- What the coordinator does to the pump the pump's driver may do. -/
theorem linkedMember {role : Role} {m next : Member} {peer : Side} (kept : m.Kept role) (linked : Linked m.side peer)
    (h : Moved role peer m next) : Linked next.side peer := by
  have asks (x : Member) (same : x.side = m.side) (instruction : PumpControl) : Linked (x.ctl instruction).side peer :=
    linkedCtl (same ▸ linked) (same ▸ kept.wired.gone) instruction
  cases h with
  | pump event own stepped => exact linkedStep linked stepped
  | install arrived settled sender stepped => exact linkedStep linked stepped
  | begin first =>
    unfold polled
    split
    · exact linked
    · exact linked
  | discover endpoint asked =>
    cases endpoint with
    | some ep => exact asks { m with endpoint := some (some ep) } rfl _
    | none => exact linked
  | @receive payload rest side waits queue stepped =>
    have taken := linkedStep linked stepped
    have open' : side.outbound.driverGone = false := (kept.wired.take stepped).gone
    unfold answer
    split
    · exact taken
    · exact taken
    · split
      · exact taken
      · exact linkedCtl (m := { m with side := side }) taken open' _
    · exact taken
  | probe endpoint reachable asked =>
    cases reachable with
    | true => exact asks { m with reachable := some true } rfl _
    | false => exact asks { m with reachable := some false } rfl _
  | establish session asked =>
    cases session with
    | true => exact asks { m with session := some true, direct := (m.direct.send ()).2 } rfl _
    | false => exact linked

end Member

/- What a member took its peer asked for. -/
theorem takenQueued {x y : Side} (linked : Linked x y) (asked : x.outbound.Asked) {payload : Bytes}
    (taken : payload ∈ y.inbound.taken) : .send payload ∈ x.outbound.queued := by
  have came : payload ∈ accepted y.inbound.handled := by
    rw [← linked.peerSunk.kept]
    exact List.mem_append_left _ taken
  obtain ⟨entry,mem,delivered⟩ := List.mem_filterMap.mp came
  have instruction : entry.instruction = .send payload := by
    cases entry with
    | cutover => contradiction
    | control message outcome =>
      cases outcome with
      | delivered =>
        cases Option.some.inj delivered
        rfl
      | full | closed => contradiction
  have sent : .send payload ∈ controls (y.inbound.processed x.outbound.sealed) := by
    rw [← linked.read.heard, ← instruction]
    exact List.mem_map_of_mem mem
  obtain ⟨later,split⟩ := linked.read.placed.processedPrefix
  refine asked.sent _ ?_
  rw [← split, controlsAppend]
  exact List.mem_append_left _ sent

namespace Pair

/- What two members keep between them. -/
structure Joined (s : Pair) : Prop where
  initiator : s.initiator.Kept .initiator
  responder : s.responder.Kept .responder
  linked : Linked s.initiator.side s.responder.side

theorem joinedStart (initiator responder : UpgradeCoordinator) (initiatorNow responderNow : UInt64) :
    (start initiator responder initiatorNow responderNow).Joined :=
  ⟨Member.keptStart _ _ _,Member.keptStart _ _ _,Session.linkedStart⟩

theorem joinedStep {s next : Pair} {event : Role × MemberEvent} (joined : s.Joined) (h : s.step event = some next) : next.Joined := by
  obtain ⟨role,event⟩ := event
  cases role with
  | initiator =>
    obtain ⟨m,stepped,rfl⟩ := Option.map_eq_some_iff.mp h
    exact ⟨Member.keptStep joined.initiator stepped,joined.responder,
      Member.linkedMember joined.initiator joined.linked (Member.moved stepped)⟩
  | responder =>
    obtain ⟨m,stepped,rfl⟩ := Option.map_eq_some_iff.mp h
    exact ⟨joined.initiator,Member.keptStep joined.responder stepped,
      (Member.linkedMember joined.responder joined.linked.swap (Member.moved stepped)).swap⟩

theorem joinedRun {s next : Pair} {events : List (Role × MemberEvent)} (joined : s.Joined) (ran : s.run events = some next) :
    next.Joined := by
  induction events generalizing s with
  | nil =>
    cases Option.some.inj ran
    exact joined
  | cons event rest ih =>
    obtain ⟨middle,first,later⟩ := Option.bind_eq_some_iff.mp ran
    exact ih (joinedStep joined first) later

/- The responder goes by an offer, and the initiator made it with its endpoint known. -/
theorem Joined.offered {s : Pair} (joined : s.Joined) (heard : s.responder.side.inbound.taken ≠ []) :
    ∃ endpoint, s.initiator.endpoint = some (some endpoint) := by
  obtain ⟨payload,taken⟩ := List.exists_mem_of_ne_nil _ heard
  have told := joined.initiator.negotiated.told _ (takenQueued joined.linked joined.initiator.wired.asked taken)
  obtain ⟨-,endpoint,known,-⟩ | ⟨other,-⟩ := told
  · exact ⟨endpoint,known⟩
  · contradiction

theorem Joined.answered {s : Pair} (joined : s.Joined) (ready : UpgradeMsg.ready.encode ∈ s.initiator.side.inbound.taken) :
    s.responder.reachable = some true := by
  have told := joined.responder.negotiated.told _ (takenQueued joined.linked.swap joined.responder.wired.asked ready)
  obtain ⟨other,-⟩ | ⟨-,abort | ⟨-,reachable⟩⟩ := told
  · contradiction
  · exact absurd abort (by decide)
  · exact reachable

/- A session that either member asked its callback for rests on the whole negotiation. -/
theorem Joined.negotiated {s : Pair} (joined : s.Joined) (asked : s.initiator.session ≠ none ∨ s.responder.session ≠ none) :
    (∃ endpoint, s.initiator.endpoint = some (some endpoint)) ∧ s.responder.reachable = some true := by
  have reachable : s.responder.reachable = some true := by
    obtain initiator | responder := asked
    · obtain ⟨-,ready⟩ | ⟨other,-⟩ := joined.initiator.negotiated.granted (.inr initiator)
      · exact joined.answered ready
      · contradiction
    · obtain ⟨other,-⟩ | ⟨-,reachable⟩ := joined.responder.negotiated.granted (.inr responder)
      · contradiction
      · exact reachable
  exact ⟨joined.offered (joined.responder.negotiated.unprobed (by simp [reachable])).2,reachable⟩

/- A failure on either side leaves no session established, if the two establishments come out alike. -/
theorem Joined.unestablished {s : Pair} (joined : s.Joined) (failed : s.Failed) (alike : ¬s.Parted) :
    s.initiator.session ≠ some true ∧ s.responder.session ≠ some true := by
  have negotiated (asked : s.initiator.session ≠ none ∨ s.responder.session ≠ none) := joined.negotiated asked
  constructor
  · intro established
    obtain ⟨⟨endpoint,known⟩,reachable⟩ := negotiated (.inl (by simp [established]))
    obtain unknown | refused | none' | none' := failed
    · simp [known] at unknown
    · simp [reachable] at refused
    · simp [established] at none'
    · exact alike (.inl ⟨established,none'⟩)
  · intro established
    obtain ⟨⟨endpoint,known⟩,reachable⟩ := negotiated (.inr (by simp [established]))
    obtain unknown | refused | none' | none' := failed
    · simp [known] at unknown
    · simp [reachable] at refused
    · exact alike (.inr ⟨none',established⟩)
    · simp [established] at none'

end Pair

theorem receiveAlive {i : Inbound} (reading : i.phase = .reading) {record : Bytes} (unmarked : controlOf record ≠ some .cutover) :
    ¬(i.receive record).Failed := by
  cases record with
  | nil => exact Inbound.aliveIn reading (by simp)
  | cons tag payload =>
    have other : tag ≠ pumpTagCutover := fun marker => unmarked (by rw [controlOf, if_pos marker])
    rw [Inbound.receive, if_neg other]
    split
    · exact Inbound.aliveIn (i := i.receiveControl payload) reading (by simp)
    · rintro ⟨message,failed⟩
      contradiction

/- A sender that was never asked to cut over stays on the relay with its reader. -/
theorem onRelay {x y : Side} (linked : Linked x y) (unasked : .cutover ∉ x.outbound.queued) : OnRelay x y := by
  have uncut : x.outbound.Uncut := linked.mine.shape.resolve_right fun cut => unasked cut.asked
  have untaken : y.inbound.dirInRx = true := by
    by_contra taken
    exact uncut.unmarked (linked.read.placed.after (by simpa using taken)).2
  have relay := (linked.read.placed.before untaken).2
  have path : y.inbound.path = .relay := by simp [Inbound.path, relay]
  have stream : x.outbound.stream = x.outbound.sealed .relay := by rw [Outbound.stream, uncut.empty, List.append_nil]
  have processed : y.inbound.processed x.outbound.sealed = (x.outbound.sealed .relay).take (y.inbound.opened .relay) := by
    rw [Inbound.processed, uncut.empty, List.take_nil, List.append_nil]
  refine ⟨uncut.relay,uncut.empty,fun alive => ?_,linked.carried,fun alive => ?_,⟨relay,fun alive waits => ?_⟩,fun reading room error => ?_⟩
  · rw [← stream]
    exact linked.mine.whole alive
  · rw [← processed]
    exact linked.read.whole alive
  · have taken := ((linked.read.waiting alive).mp waits).1
    simp [untaken] at taken
  · have found : (x.outbound.sealed .relay)[y.inbound.opened .relay]? = some (x.outbound.sealed .relay)[y.inbound.opened .relay] :=
      List.getElem?_eq_getElem room
    have read : y.inbound.readMessage x.outbound.sealed (.record .relay (y.inbound.opened .relay)) =
        some (x.outbound.sealed .relay)[y.inbound.opened .relay] := by
      simp only [Inbound.readMessage, path, and_self, if_true, found]
    rw [Inbound.arrive, read]
    refine receiveAlive (i := y.inbound.advance) reading fun marker => uncut.unmarked ?_
    exact List.mem_filterMap.mpr ⟨_,List.getElem_mem room,marker⟩

/- After a failure both members stay on the relay, unless one established the direct session and the other did not. -/
theorem fallsBack {initiator responder : UpgradeCoordinator} {initiatorNow responderNow : UInt64}
    {events : List (Role × MemberEvent)} {s : Pair}
    (ran : (Pair.start initiator responder initiatorNow responderNow).run events = some s) (failed : s.Failed) (alike : ¬s.Parted) :
    OnRelay s.initiator.side s.responder.side ∧ OnRelay s.responder.side s.initiator.side := by
  have joined := Pair.joinedRun (Pair.joinedStart initiator responder initiatorNow responderNow) ran
  obtain ⟨first,second⟩ := joined.unestablished failed alike
  constructor
  · exact onRelay joined.linked fun asked => first (joined.initiator.negotiated.told _ asked)
  · exact onRelay joined.linked.swap fun asked => second (joined.responder.negotiated.told _ asked)

/- An offer that is answered, up to the two establishments. -/
def agreeing : List (Role × MemberEvent) :=
  [(.initiator,.polled),(.initiator,.discovered (some "203.0.113.10:7001")),(.initiator,.pump (.send (.control none))),
    (.initiator,.pump (.send .written)),(.responder,.pump (.read (.arrive (.record .relay 0) ""))),(.responder,.received),
    (.responder,.probed true),(.responder,.pump (.send (.control none))),(.responder,.pump (.send .written)),
    (.initiator,.pump (.read (.arrive (.record .relay 0) ""))),(.initiator,.received)]

/- Neither side establishes the session, and a byte goes over the relay. -/
def bothFail : List (Role × MemberEvent) :=
  [(.initiator,.established false),(.responder,.established false),(.initiator,.install),(.responder,.install),
    (.initiator,.pump (.send (.readData [7] none))),(.initiator,.pump (.send .written)),
    (.responder,.pump (.read (.arrive (.record .relay 1) ""))),(.responder,.pump (.read (.handed 1)))]

theorem bothFailFallsBack : ∃ s, (Pair.start (.new .initiator 0) (.new .responder 0) 5 0).run (agreeing ++ bothFail) = some s ∧
    s.Failed ∧ ¬s.Parted ∧ s.responder.side.inbound.output = [7] ∧ OnRelay s.initiator.side s.responder.side ∧
    OnRelay s.responder.side s.initiator.side := by
  have checked : ((Pair.start (.new .initiator 0) (.new .responder 0) 5 0).run (agreeing ++ bothFail)).any (fun s => decide
      (s.initiator.session = some false ∧ s.responder.session = some false ∧ s.responder.side.inbound.output = [7])) = true := by
    decide +kernel
  obtain ⟨s,ran,holds⟩ := (Option.any_eq_true _ _).mp checked
  obtain ⟨first,second,output⟩ := of_decide_eq_true holds
  have failed : s.Failed := .inr (.inr (.inl first))
  have alike : ¬s.Parted := by simp [Pair.Parted, first, second]
  exact ⟨s,ran,failed,alike,output,fallsBack ran failed alike⟩

/- The initiator establishes the session and the responder does not: the initiator's next byte goes out on a path the
responder never reads, and the responder gives up. -/
def initiatorAlone : List (Role × MemberEvent) :=
  [(.initiator,.established true),(.responder,.established false),(.initiator,.install),(.responder,.install),
    (.initiator,.pump (.send (.control none))),(.initiator,.pump (.send (.direct none))),(.initiator,.pump (.send .written)),
    (.initiator,.pump (.send (.readData [7] none))),(.initiator,.pump (.send .written)),
    (.responder,.pump (.read (.arrive (.record .relay 1) ""))),(.responder,.pump (.read .direct))]

theorem initiatorSwitchesAlone : ∃ s,
    (Pair.start (.new .initiator 0) (.new .responder 0) 5 0).run (agreeing ++ initiatorAlone) = some s ∧ s.Failed ∧
    s.initiator.side.outbound.onDirect = true ∧ s.initiator.side.outbound.consumed = [7] ∧ s.responder.side.inbound.output = [] ∧
    s.responder.side.inbound.phase = .failed Inbound.cannotHonor := by
  have checked : ((Pair.start (.new .initiator 0) (.new .responder 0) 5 0).run (agreeing ++ initiatorAlone)).any (fun s => decide
      (s.responder.session = some false ∧ s.initiator.side.outbound.onDirect = true ∧ s.initiator.side.outbound.consumed = [7] ∧
        s.responder.side.inbound.output = [] ∧ s.responder.side.inbound.phase = .failed Inbound.cannotHonor)) = true := by
    decide +kernel
  obtain ⟨s,ran,holds⟩ := (Option.any_eq_true _ _).mp checked
  obtain ⟨refused,direct,consumed,output,phase⟩ := of_decide_eq_true holds
  exact ⟨s,ran,.inr (.inr (.inr refused)),direct,consumed,output,phase⟩

end CadsTunnel.Upgrade
