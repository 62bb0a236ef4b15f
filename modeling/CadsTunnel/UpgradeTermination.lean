import CadsTunnel.UpgradableSession

/-! The end of an upgradable session. Both loops of the pump come to their end, and the
session returns when the installer has, too. The installer waits for the coordinator,
and the coordinator may wait for a control message on a channel that the pump keeps
open: then nothing of the session moves again. -/
namespace CadsTunnel.Upgrade
open Words Cutover

def sendOver : SendPhase → Bool
  | .ended | .failed _ => true
  | _ => false

def readOver : ReadPhase → Bool
  | .ended | .failed _ => true
  | _ => false

namespace Member

/- Both loops of the pump are done. -/
def Finished (m : Member) : Prop := sendOver m.side.outbound.phase ∧ readOver m.side.inbound.phase

instance (m : Member) : Decidable m.Finished := inferInstanceAs (Decidable (_ ∧ _))

/- The session has not returned and no part of it has a step, whatever the peer, the local side and the callbacks do. -/
def Stuck (role : Role) (m : Member) : Prop := m.side.result = none ∧ ∀ peer event, m.step role peer event = none

/- A control record came in before the incoming stream ended. -/
def Heard (m : Member) : Prop := ∃ payload outcome, .control payload outcome ∈ m.side.inbound.handled

section Ends
variable {role : Role} {m : Member}

theorem resultNone (finished : m.Finished) : m.side.result = none ↔ m.side.installer = .waiting := by
  obtain ⟨sent,read⟩ := finished
  unfold Side.result
  cases m.side.installer with
  | waiting => simp
  | installed | dropped =>
    cases out : m.side.outbound.phase <;> cases inn : m.side.inbound.phase <;> simp_all [sendOver, readOver]

theorem overSend {x peer : Side} {event : SendEvent} (done : sendOver x.outbound.phase) (own : ofPump (.send event)) :
    x.step peer (.send event) = none := by
  have idle : x.outbound.phase ≠ .select ∧ x.outbound.phase ≠ .awaiting ∧ ∀ marker, x.outbound.phase ≠ .writing marker := by
    cases phase : x.outbound.phase <;> simp_all [sendOver]
  obtain ⟨select,awaiting,writing⟩ := idle
  cases event with
  | enqueue instruction | driverDrops => contradiction
  | control failure => simp [Side.step, Outbound.step, select]
  | direct failure => simp [Side.step, Outbound.step, awaiting]
  | readData bytes failure => simp [Side.step, Outbound.step, select]
  | readEnd | readFailed message => simp [Side.step, Outbound.step, select]
  | written | writeFailed message => simp [Side.step, Outbound.step]

theorem overRead {x peer : Side} {event : ReadEvent} (done : readOver x.inbound.phase) (own : ofPump (.read event)) :
    x.step peer (.read event) = none := by
  have idle : x.inbound.phase ≠ .reading ∧ x.inbound.phase ≠ .awaiting ∧ ∀ rest, x.inbound.phase ≠ .delivering rest := by
    cases phase : x.inbound.phase <;> simp_all [readOver]
  obtain ⟨reading,awaiting,delivering⟩ := idle
  cases event with
  | driverTakes | driverCloses => contradiction
  | arrive frame error => simp [Side.step, Inbound.step, reading]
  | broken => simp [Side.step, Inbound.step, reading]
  | direct => simp [Side.step, Inbound.step, awaiting]
  | flushed => simp [Side.step, Inbound.step, delivering]
  | handed count | outputFailed message => simp [Side.step, Inbound.step]

/- With both loops done the pump has no step of its own. -/
theorem overPump {peer : Side} {event : Event} (finished : m.Finished) (own : ofPump event) : m.side.step peer event = none := by
  cases event with
  | send event => exact overSend finished.1 own
  | read event => exact overRead finished.2 own
  | install arrived => contradiction

/- Once its sender is gone the one-shot has an answer for the installer. -/
theorem installable (waits : m.side.installer = .waiting) (gone : m.direct.sender = false) (fresh : m.direct.receiver = .waiting)
    (peer : Side) : m.installs peer ≠ none := by
  have installs (direct : Oneshot Unit) (arrived : Bool) : ({ m with direct := direct } : Member).pumps peer (.install arrived) ≠ none := by
    simp [pumps, Side.step, waits]
  unfold Member.installs
  rw [Oneshot.pollWaiting fresh, Oneshot.look]
  cases m.direct.value with
  | some session => exact installs _ true
  | none =>
    rw [gone]
    exact installs _ false

/- With a free slot in its sink the first control record is delivered, so that none was accepted means that none came. -/
theorem acceptedNone (kept : m.Kept role) : accepted m.side.inbound.handled = [] ↔ ¬m.Heard := by
  constructor
  · rintro empty ⟨payload,outcome,mem⟩
    obtain ⟨front,later,split⟩ := List.append_of_mem mem
    have front' : accepted front = [] := by
      rw [split, acceptedAppend] at empty
      exact (List.append_eq_nil_iff.mp empty).1
    obtain rfl | ⟨-,closed⟩ | ⟨-,full⟩ := kept.wired.sunk.dropped front payload outcome later split
    · have there : payload ∈ accepted m.side.inbound.handled := List.mem_filterMap.mpr ⟨_,mem,rfl⟩
      rw [empty] at there
      contradiction
    · rw [kept.wired.closed] at closed
      contradiction
    · rw [front'] at full
      contradiction
  · intro unheard
    rw [accepted, List.filterMap_eq_nil_iff]
    intro entry mem
    cases entry with
    | control payload outcome => exact absurd ⟨payload,outcome,mem⟩ unheard
    | cutover => rfl

theorem stuckListens (kept : m.Kept role) (finished : m.Finished) (stuck : m.Stuck role) :
    m.phase = .listening ∧ m.side.inbound.controlIn = [] := by
  obtain ⟨running,still⟩ := stuck
  have stands (event : MemberEvent) : m.step role {} event = none := still {} event
  have waits := (resultNone finished).mp running
  have listens : m.phase = .listening := by
    cases phase : m.phase with
    | listening => rfl
    | starting => simpa [step, running, phase] using stands .polled
    | discovering => simpa [step, running, phase] using stands (.discovered none)
    | probing endpoint => simpa [step, running, phase, isProbing] using stands (.probed false)
    | establishing => simpa [step, running, phase] using stands (.established false)
    | parked =>
      obtain ⟨gone,fresh⟩ := kept.wired.freed phase
      exact absurd (by simpa [step, running] using stands .install) (installable waits gone (fresh waits) {})
  refine ⟨listens,?_⟩
  cases queue : m.side.inbound.controlIn with
  | nil => rfl
  | cons payload rest =>
    simpa [step, running, listens, receives, queue, pumps, Side.step, Inbound.step, kept.wired.closed] using stands .received

theorem listensStuck (kept : m.Kept role) (finished : m.Finished) (listens : m.phase = .listening)
    (empty : m.side.inbound.controlIn = []) : m.Stuck role := by
  obtain ⟨fresh,waits⟩ := kept.wired.held (by simp [listens])
  have running := (resultNone finished).mpr waits
  refine ⟨running,fun peer event => ?_⟩
  cases event with
  | pump event =>
    simp only [step, running, Option.isSome_none, Bool.false_eq_true, if_false]
    split
    case isTrue own => rw [pumps, overPump finished own, Option.map_none]
    case isFalse => rfl
  | install =>
    have pending : m.direct.poll = (.pending,{}) := by rw [fresh]; rfl
    simp [step, running, installs, pending]
  | received => simp [step, running, listens, receives, empty]
  | polled | discovered endpoint | probed reachable | established session => simp [step, running, listens, isProbing]

theorem stuckWaits (kept : m.Kept role) (finished : m.Finished) : m.Stuck role ↔ m.Waits role ∧ ¬m.Heard := by
  rw [← acceptedNone kept, ← kept.wired.sunk.kept, List.append_eq_nil_iff]
  constructor
  · intro stuck
    obtain ⟨listens,empty⟩ := stuckListens kept finished stuck
    have waits := kept.negotiated.waits (by simp [listens])
    exact ⟨waits,(kept.negotiated.heard waits).1.mp listens,empty⟩
  · rintro ⟨waits,taken,empty⟩
    exact listensStuck kept finished ((kept.negotiated.heard waits).1.mpr taken) empty

end Ends

/- In every run, with both loops done: the session moves on or has returned, unless it waits for a control message
and none came in. -/
theorem movesOnIff {role : Role} {coord : UpgradeCoordinator} {now : UInt64} {steps : List (Side × MemberEvent)} {m : Member}
    (ran : (start role coord now).run role steps = some m) (finished : m.Finished) :
    ¬m.Stuck role ↔ m.Heard ∨ ¬m.Waits role := by
  rw [stuckWaits (keptRun (keptStart role coord now) ran) finished, not_and_or, not_not, or_comm]

/- A peer that sealed one abort. -/
def aborting : Side := { outbound := { sealed := fun path => if path = .relay then [[pumpTagControl,UpgradeMsg.tagAbort]] else [] } }

def aborted : List (Side × MemberEvent) :=
  [(aborting,.pump (.read (.arrive (.record .relay 0) ""))),(aborting,.received),({},.pump (.send .readEnd)),({},.pump (.read .broken))]

theorem movesOnAborted : ∃ m, (start .responder (.new .responder 0) 0).run .responder aborted = some m ∧ m.Finished ∧
    ¬m.Stuck .responder := by
  have ran : ∃ m, (start .responder (.new .responder 0) 0).run .responder aborted = some m ∧ m.Finished ∧
      .control [UpgradeMsg.tagAbort] .delivered ∈ m.side.inbound.handled := ⟨_,rfl,⟨rfl,rfl⟩,List.mem_singleton.mpr rfl⟩
  obtain ⟨m,ran,finished,came⟩ := ran
  exact ⟨m,ran,finished,(movesOnIff ran finished).mpr (.inl ⟨_,_,came⟩)⟩

/- A responder whose peer ends the stream without an offer. -/
def noOffer : List (Side × MemberEvent) := [({},.pump (.send .readEnd)),({},.pump (.read .broken))]

theorem leftHanging : ∃ m, (start .responder (.new .responder 0) 0).run .responder noOffer = some m ∧ m.Finished ∧ m.Stuck .responder := by
  have ran : (start .responder (.new .responder 0) 0).run .responder noOffer = some { start .responder (.new .responder 0) 0 with
      side := { outbound := { phase := .ended }, inbound := { phase := .ended } } } := rfl
  have kept := keptRun (keptStart .responder (.new .responder 0) 0) ran
  have finished : Finished { start .responder (.new .responder 0) 0 with
      side := { outbound := { phase := .ended }, inbound := { phase := .ended } } } := ⟨rfl,rfl⟩
  exact ⟨_,ran,finished,(stuckWaits kept finished).mpr ⟨.inl rfl,by simp [Heard]⟩⟩

end Member
end CadsTunnel.Upgrade
