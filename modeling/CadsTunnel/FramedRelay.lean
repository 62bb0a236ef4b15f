import CadsTunnel.FallbackFraming

/-! The framed relay between a browser and an agent. One leg reads the agent's frames and writes
their payloads to the browser; the other owns the writer towards the agent. The first tells the
second what it has to know over a bounded queue. An event is the return of what one of the legs
awaits, in any order, with the milliseconds since the relay began. -/
namespace CadsTunnel.FramedRelay
open Words Fallback

def keepaliveInterval : Nat := 8 * 1000
def framedKeepaliveDeadAfterMs : Nat := 24 * 1000
def postPeerFinIdleBound : Nat := 180 * 1000
def eventCapacity : Nat := 8
def bufferSize : Nat := 16 * 1024

inductive RelayErrorKind where
  | codec (kind : ErrorKind)
  | timedOut
  | other (code : Nat)
  deriving DecidableEq, Repr

/- An error of one of the streams, with the texts of its chain of sources. -/
structure StreamError where
  kind : RelayErrorKind
  text : String
  sources : List String := []
  deriving DecidableEq, Repr

structure RelayError where
  kind : RelayErrorKind
  message : String
  deriving DecidableEq, Repr

def ofCodec (e : IoError) : StreamError := ⟨.codec e.kind,e.message,[]⟩

def withCauseChain (e : StreamError) : String :=
  e.sources.foldl (fun out text => if out.endsWith text then out else out ++ ": " ++ text) e.text

def relayIoError (e : StreamError) (dir label : String) : RelayError := ⟨e.kind,s!"relay {label} {dir}: {withCauseChain e}"⟩

def peerDead : RelayError :=
  ⟨.timedOut,s!"framed relay: peer dead -- oldest keepalive unacked for {framedKeepaliveDeadAfterMs}ms"⟩

/- No stream error reads like the verdict on a dead peer. -/
theorem notPeerDead (e : StreamError) (dir label : String) : relayIoError e dir label ≠ peerDead := by
  intro same
  have text := congrArg (fun e => e.message.toList.head?) same
  have plain : ∀ text : String, toString text = text := fun _ => rfl
  simp [relayIoError, peerDead, plain, String.toList_append] at text

inductive FramedEvent where
  | ack (counter : UInt64)
  | ackSeen (counter : UInt64)
  | peerFin
  deriving DecidableEq, Repr

/- Where the leg from the agent to the browser waits. -/
inductive Reverse where
  | reading
  | writing (rest : Bytes)
  | flushing
  | shutdown (eof : Bool)
  | notifying (eof : Bool)
  | done (result : Except RelayError Unit)

/- What the leg from the browser to the agent writes, and so where it goes on. -/
inductive Writing where
  | data (short : Bool)
  | browserFin
  | ack
  | drainedAck
  | keepalive
  | idleFin
  deriving DecidableEq, Repr

/- Where that leg waits; at its select, with the deadline of the liveness arm. -/
inductive Forward where
  | select (dead : Option Nat)
  | writing (rest : Bytes) (what : Writing)
  | flushing (what : Writing)
  | shutdown
  | done (result : Except RelayError Unit)

structure ReverseLeg where
  reader : FrameReader
  stage : Reverse := .reading
  revBytes : UInt64 := 0
  -- What was written to the browser, and whether its write half was shut down.
  toBrowser : Bytes := []
  browserShut : Bool := false

structure ForwardLeg where
  -- What the browser has still to send.
  browser : Bytes
  writer : FrameWriter := .new []
  stage : Forward := .select none
  fwdBytes : UInt64 := 0
  ownFin : Bool := false
  peerFin : Bool := false
  eventsOpen : Bool := true
  nextCounter : UInt64 := 0
  tracker : KeepaliveTracker := .new
  lastSend : Nat := 0
  lastFwdData : Nat := 0
  toAgent : Bytes := []
  agentShut : Bool := false

structure Relay where
  rev : ReverseLeg
  fwd : ForwardLeg
  queue : List FramedEvent := []
  clock : Nat := 0

inductive Event where
  | agentFrame
  | agentReadFailed (e : StreamError)
  | browserWrote (count : Nat)
  | browserWriteFailed (e : StreamError)
  | browserFlushed
  | browserShutdown
  | peerFinSent
  | browserRead (count : Nat)
  | browserReadFailed (e : StreamError)
  | eventReceived
  | keepaliveDue
  | idleElapsed
  | deadline
  | agentWrote (count : Nat)
  | agentWriteFailed (e : StreamError)
  | agentFlushed
  | agentShutdown
  deriving DecidableEq

namespace ReverseLeg

def fails (s : ReverseLeg) (e : StreamError) : ReverseLeg :=
  { s with stage := .done (.error (relayIoError e "agent->browser" "framed")) }

/- `reader.next()` has returned; beside the leg, what it tries to send. -/
def agentFrame (s : ReverseLeg) : Option (ReverseLeg × Option FramedEvent) :=
  match s.stage with
  | .reading =>
    match s.reader.next with
    | (.error e,reader) => some ({ s with reader }.fails (ofCodec e),none)
    | (.ok none,reader) => some ({ s with reader, browserShut := true, stage := .shutdown true },none)
    | (.ok (some (.data payload)),reader) =>
      some ({ s with
        reader
        revBytes := s.revBytes + .ofNat payload.length
        stage := if payload.isEmpty then .flushing else .writing payload },none)
    | (.ok (some (.keepalive counter shouldAck)),reader) => some ({ s with reader },if shouldAck then some (.ack counter) else none)
    | (.ok (some (.keepaliveAck counter)),reader) => some ({ s with reader },some (.ackSeen counter))
    | (.ok (some .fin),reader) => some ({ s with reader, browserShut := true, stage := .shutdown false },none)
  | _ => none

def agentReadFailed (s : ReverseLeg) (e : StreamError) : Option ReverseLeg :=
  match s.stage with
  | .reading => some (s.fails e)
  | _ => none

def browserWrote (s : ReverseLeg) (count : Nat) : Option ReverseLeg :=
  match s.stage with
  | .writing rest =>
    if 0 < count ∧ count ≤ rest.length then
      some { s with
        toBrowser := s.toBrowser ++ rest.take count
        stage := if count = rest.length then .flushing else .writing (rest.drop count) }
    else none
  | _ => none

def browserWriteFailed (s : ReverseLeg) (e : StreamError) : Option ReverseLeg :=
  match s.stage with
  | .writing _ => some (s.fails e)
  | .flushing => some (s.fails e)
  | _ => none

def browserFlushed (s : ReverseLeg) : Option ReverseLeg :=
  match s.stage with
  | .flushing => some { s with stage := .reading }
  | _ => none

/- With an error or without. -/
def browserShutdown (s : ReverseLeg) : Option ReverseLeg :=
  match s.stage with
  | .shutdown eof => some { s with stage := .notifying eof }
  | _ => none

/- The send that waits for a place in the queue. -/
def peerFinSent (s : ReverseLeg) (queue : List FramedEvent) : Option (ReverseLeg × List FramedEvent) :=
  match s.stage with
  | .notifying eof =>
    if queue.length < eventCapacity then some ({ s with stage := if eof then .done (.ok ()) else .reading },queue ++ [.peerFin])
    else none
  | _ => none

/- The sender is gone. -/
def closed (s : ReverseLeg) : Bool :=
  match s.stage with
  | .done _ => true
  | _ => false

end ReverseLeg

/- An event that finds the queue full is dropped. -/
def trySend (queue : List FramedEvent) (event : Option FramedEvent) : List FramedEvent :=
  if queue.length < eventCapacity then queue ++ event.toList else queue

namespace ForwardLeg

def fails (s : ForwardLeg) (e : StreamError) : ForwardLeg :=
  { s with stage := .done (.error (relayIoError e "browser->agent" "framed")) }

/- The head of the loop. -/
def next (s : ForwardLeg) (now : Nat) : ForwardLeg :=
  if s.ownFin && s.peerFin then { s with agentShut := true, stage := .shutdown }
  else
    { s with stage := .select ((s.tracker.oldestOutstandingAgeMs now).map (fun age => now + (framedKeepaliveDeadAfterMs - age))) }

/- A frame that is to be written. -/
def writes (s : ForwardLeg) (what : Writing) : Except IoError Unit × FrameWriter → ForwardLeg
  | (.error e,writer) => { s with writer }.fails (ofCodec e)
  | (.ok (),writer) => { s with writer, stage := .writing (writer.w.drop s.writer.w.length) what }

/- Nothing read is the end of the stream. -/
def browserRead (s : ForwardLeg) (count : Nat) : Option ForwardLeg :=
  match s.stage with
  | .select _ =>
    if s.ownFin = false ∧ count ≤ bufferSize ∧ count ≤ s.browser.length ∧ (count = 0 → s.browser = []) then
      if count = 0 then some (s.writes .browserFin s.writer.fin)
      else
        some ({ s with browser := s.browser.drop count, fwdBytes := s.fwdBytes + UInt64.ofNat count }.writes
          (.data (count < bufferSize)) (s.writer.data (s.browser.take count)))
    else none
  | _ => none

def browserReadFailed (s : ForwardLeg) (e : StreamError) : Option ForwardLeg :=
  match s.stage with
  | .select _ => if s.ownFin = false then some (s.fails e) else none
  | _ => none

/- The peer's FIN ends the watch over its acknowledgements and starts the idle clock, once. -/
def hearFin (s : ForwardLeg) (now : Nat) : ForwardLeg :=
  { s with lastFwdData := if s.peerFin then s.lastFwdData else now, peerFin := true, tracker := .new }

def eventReceived (s : ForwardLeg) (queue : List FramedEvent) (closed : Bool) (now : Nat) : Option (ForwardLeg × List FramedEvent) :=
  match s.stage with
  | .select _ =>
    if s.eventsOpen then
      match queue with
      | .ack counter :: rest => some (s.writes .ack (s.writer.keepaliveAck counter),rest)
      | .ackSeen counter :: rest => some ({ s with tracker := s.tracker.ack counter }.next now,rest)
      | .peerFin :: rest => some ((s.hearFin now).next now,rest)
      | [] => if closed then some (({ s with eventsOpen := false }.hearFin now).next now,[]) else none
    else none
  | _ => none

def keepaliveDue (s : ForwardLeg) (now : Nat) : Option ForwardLeg :=
  match s.stage with
  | .select _ =>
    if s.lastSend + keepaliveInterval ≤ now then
      let counter := s.nextCounter
      some ({ s with
        nextCounter := counter + 1
        tracker := if s.peerFin then s.tracker else s.tracker.sent counter now }.writes .keepalive (s.writer.keepalive counter))
    else none
  | _ => none

def idleElapsed (s : ForwardLeg) (now : Nat) : Option ForwardLeg :=
  match s.stage with
  | .select _ =>
    if s.peerFin = true ∧ s.ownFin = false ∧ s.lastFwdData + postPeerFinIdleBound ≤ now then some (s.writes .idleFin s.writer.fin)
    else none
  | _ => none

def judge (s : ForwardLeg) (now : Nat) : ForwardLeg :=
  if (s.tracker.oldestOutstandingAgeMs now).any (fun age => framedKeepaliveDeadAfterMs ≤ age) then { s with stage := .done (.error peerDead) }
  else s.next now

/- Every queued event is applied before the verdict; an acknowledgement is written first. -/
def drain (s : ForwardLeg) (now : Nat) : List FramedEvent → ForwardLeg × List FramedEvent
  | [] => (s.judge now,[])
  | .ack counter :: rest => (s.writes .drainedAck (s.writer.keepaliveAck counter),rest)
  | .ackSeen counter :: rest => { s with tracker := s.tracker.ack counter }.drain now rest
  | .peerFin :: rest => (s.hearFin now).drain now rest

def deadline (s : ForwardLeg) (queue : List FramedEvent) (now : Nat) : Option (ForwardLeg × List FramedEvent) :=
  match s.stage with
  | .select dead => if dead.any (fun deadline => deadline ≤ now) then some (s.drain now queue) else none
  | _ => none

/- A chunk that did not fill the buffer is flushed, as every other frame is. -/
def written (s : ForwardLeg) (what : Writing) (now : Nat) : ForwardLeg :=
  match what with
  | .data short =>
    let s := { s with lastFwdData := now }
    if short then { s with stage := .flushing what } else { s with lastSend := now }.next now
  | _ => { s with stage := .flushing what }

def agentWrote (s : ForwardLeg) (count : Nat) (now : Nat) : Option ForwardLeg :=
  match s.stage with
  | .writing rest what =>
    if 0 < count ∧ count ≤ rest.length then
      let s := { s with toAgent := s.toAgent ++ rest.take count }
      some (if count = rest.length then s.written what now else { s with stage := .writing (rest.drop count) what })
    else none
  | _ => none

def agentWriteFailed (s : ForwardLeg) (e : StreamError) : Option ForwardLeg :=
  match s.stage with
  | .writing _ _ => some (s.fails e)
  | .flushing _ => some (s.fails e)
  | _ => none

def agentFlushed (s : ForwardLeg) (queue : List FramedEvent) (now : Nat) : Option (ForwardLeg × List FramedEvent) :=
  match s.stage with
  | .flushing what =>
    some (match what with
      | .data _ => ({ s with lastSend := now }.next now,queue)
      | .ack => ({ s with lastSend := now }.next now,queue)
      | .keepalive => ({ s with lastSend := now }.next now,queue)
      | .browserFin => ({ s with ownFin := true, lastSend := now }.next now,queue)
      | .idleFin => ({ s with ownFin := true }.next now,queue)
      | .drainedAck => { s with lastSend := now }.drain now queue)
  | _ => none

/- With an error or without. -/
def agentShutdown (s : ForwardLeg) : Option ForwardLeg :=
  match s.stage with
  | .shutdown => some { s with stage := .done (.ok ()) }
  | _ => none

end ForwardLeg

namespace Relay

def new (agent browser : Bytes) : Relay := { rev := { reader := .new agent }, fwd := { browser } }

/- What the relay returns, as soon as one of the legs makes it. -/
def result (s : Relay) : Option (Except RelayError (UInt64 × UInt64)) :=
  match s.fwd.stage with
  | .done (.error e) => some (.error e)
  | .done (.ok ()) => some (.ok (s.fwd.fwdBytes,s.rev.revBytes))
  | _ =>
    match s.rev.stage with
    | .done (.error e) => some (.error e)
    | _ => none

def step (s : Relay) (now : Nat) (event : Event) : Option Relay :=
  if s.result.isSome ∨ now < s.clock then none
  else
    let s := { s with clock := now }
    match event with
    | .agentFrame => s.rev.agentFrame.map (fun (rev,event) => { s with rev, queue := trySend s.queue event })
    | .agentReadFailed e => (s.rev.agentReadFailed e).map (fun rev => { s with rev })
    | .browserWrote count => (s.rev.browserWrote count).map (fun rev => { s with rev })
    | .browserWriteFailed e => (s.rev.browserWriteFailed e).map (fun rev => { s with rev })
    | .browserFlushed => s.rev.browserFlushed.map (fun rev => { s with rev })
    | .browserShutdown => s.rev.browserShutdown.map (fun rev => { s with rev })
    | .peerFinSent => (s.rev.peerFinSent s.queue).map (fun (rev,queue) => { s with rev, queue })
    | .browserRead count => (s.fwd.browserRead count).map (fun fwd => { s with fwd })
    | .browserReadFailed e => (s.fwd.browserReadFailed e).map (fun fwd => { s with fwd })
    | .eventReceived => (s.fwd.eventReceived s.queue s.rev.closed now).map (fun (fwd,queue) => { s with fwd, queue })
    | .keepaliveDue => (s.fwd.keepaliveDue now).map (fun fwd => { s with fwd })
    | .idleElapsed => (s.fwd.idleElapsed now).map (fun fwd => { s with fwd })
    | .deadline => (s.fwd.deadline s.queue now).map (fun (fwd,queue) => { s with fwd, queue })
    | .agentWrote count => (s.fwd.agentWrote count now).map (fun fwd => { s with fwd })
    | .agentWriteFailed e => (s.fwd.agentWriteFailed e).map (fun fwd => { s with fwd })
    | .agentFlushed => (s.fwd.agentFlushed s.queue now).map (fun (fwd,queue) => { s with fwd, queue })
    | .agentShutdown => s.fwd.agentShutdown.map (fun fwd => { s with fwd })

def run (s : Relay) (events : List (Nat × Event)) : Option Relay := events.foldlM (fun s e => s.step e.1 e.2) s

end Relay

/- The payloads of the agent's DATA frames, as a reader of its whole stream finds them. -/
def dataBytes (agent : Bytes) : Bytes := (FrameReader.new agent).frames.flatMap Frame.payload

def Reverse.rest : Reverse → Bytes
  | .writing rest => rest
  | _ => []

def Reverse.failed : Reverse → Bool
  | .done (.error _) => true
  | _ => false

/- On the way out, after the peer's FIN or at the end of its stream. -/
def Reverse.closing : Reverse → Bool
  | .shutdown _ => true
  | .notifying _ => true
  | .done (.ok _) => true
  | _ => false

def Reverse.atEof : Reverse → Bool
  | .shutdown eof => eof
  | .notifying eof => eof
  | .done (.ok _) => true
  | _ => false

namespace ReverseLeg

/- Where the leg stands while it has not failed. The peer's FIN is known to the other leg, or on its way there, only when all the
payloads were written. -/
structure Alive (agent : Bytes) (known : Prop) (s : ReverseLeg) : Prop where
  content : s.toBrowser ++ s.stage.rest ++ s.reader.frames.flatMap Frame.payload = dataBytes agent
  counted : s.revBytes = .ofNat (s.toBrowser ++ s.stage.rest).length
  owing : known → s.stage.rest = []
  ended : s.stage.atEof = true → s.reader.next.1 = .ok none
  heard : known ∨ s.stage.closing = true → s.reader.peerFin = true ∨ s.stage.atEof = true
  shut : known ∨ s.stage.closing = true → s.browserShut = true

structure Sound (agent : Bytes) (known : Prop) (s : ReverseLeg) : Prop where
  front : s.toBrowser <+: dataBytes agent
  alive : s.stage.failed = false → s.Alive agent known
  io : s.stage ≠ .done (.error peerDead)

section Steps
variable {agent : Bytes} {known later : Prop} {s s' : ReverseLeg}

theorem aliveFront (alive : s.Alive agent known) : s.toBrowser <+: dataBytes agent := by
  rw [← alive.content, List.append_assoc]
  exact List.prefix_append _ _

theorem aliveSound (alive : s.Alive agent known) (fine : s.stage.failed = false) : s.Sound agent known := by
  refine ⟨aliveFront alive,fun _ => alive,?_⟩
  intro dead
  rw [dead] at fine
  contradiction

theorem failsSound (front : s.toBrowser <+: dataBytes agent) (e : StreamError) : (s.fails e).Sound agent known :=
  ⟨front,nofun,fun dead => notPeerDead _ _ _ (Except.error.inj (Reverse.done.inj dead))⟩

theorem closingRest (closing : s.stage.closing = true) : s.stage.rest = [] := by
  cases stage : s.stage <;> simp [stage, Reverse.closing, Reverse.rest] at closing ⊢

theorem soundTold (sound : s.Sound agent known) (implies : later → known ∨ s.stage.closing = true) : s.Sound agent later := by
  refine ⟨sound.front,fun running => ?_,sound.io⟩
  have alive := sound.alive running
  have told : later ∨ s.stage.closing = true → known ∨ s.stage.closing = true := fun heard => heard.elim implies .inr
  exact ⟨alive.content,alive.counted,fun yes => (implies yes).elim alive.owing closingRest,alive.ended,alive.heard ∘ told,alive.shut ∘ told⟩

/- Once its FIN is known, all that the agent has sent was written. -/
theorem aliveAll (alive : s.Alive agent known) (heard : known ∨ s.stage.closing = true) : s.toBrowser = dataBytes agent := by
  have idle : s.stage.rest = [] := by
    obtain yes | closing := heard
    · exact alive.owing yes
    · exact closingRest closing
  have none : s.reader.frames.flatMap Frame.payload = [] := by
    obtain finished | ended := alive.heard heard
    · exact FrameReader.framesFinished finished
    · rw [FrameReader.framesEnd (by rw [alive.ended ended]; nofun)]
      rfl
  have content := alive.content
  rwa [idle, none, List.append_nil, List.append_nil] at content

/- A leg that has something to write, before the agent's FIN. -/
theorem owesSound (content : s.toBrowser ++ s.stage.rest ++ s.reader.frames.flatMap Frame.payload = dataBytes agent)
    (counted : s.revBytes = .ofNat (s.toBrowser ++ s.stage.rest).length) (unknown : ¬known)
    (busy : s.stage = .flushing ∨ ∃ rest, s.stage = .writing rest) : s.Sound agent known := by
  have open' : s.stage.closing = false ∧ s.stage.atEof = false ∧ s.stage.failed = false := by
    obtain stage | ⟨rest,stage⟩ := busy <;> rw [stage] <;> exact ⟨rfl,rfl,rfl⟩
  refine aliveSound ⟨content,counted,fun yes => absurd yes unknown,?_,?_,?_⟩ open'.2.2
  · simp [open'.2]
  · simp [open'.1, unknown]
  · simp [open'.1, unknown]

/- A frame without a payload that leaves the leg where it reads. -/
theorem readsSound {reader : FrameReader} (alive : s.Alive agent known) (reading : s.stage = .reading)
    (same : reader.frames.flatMap Frame.payload = s.reader.frames.flatMap Frame.payload)
    (kept : s.reader.peerFin = true → reader.peerFin = true) : { s with reader := reader }.Sound agent known := by
  refine aliveSound ⟨by rw [same]; exact alive.content,alive.counted,alive.owing,?_,?_,alive.shut⟩ (by rw [reading]; rfl)
  · simp [reading, Reverse.atEof]
  · intro heard
    obtain finished | ended := alive.heard heard
    · exact .inl (kept finished)
    · exact .inr ended

theorem agentFrameSound {event : Option FramedEvent} (alive : s.Alive agent known) (stepped : s.agentFrame = some (s',event)) :
    s'.Sound agent known ∧ event ≠ some .peerFin := by
  unfold agentFrame at stepped
  split at stepped <;> try contradiction
  rename_i reading
  have front := aliveFront alive
  have content := alive.content
  have counted := alive.counted
  have finished : known → s.reader.peerFin = true := fun yes => by simpa [reading, Reverse.atEof] using alive.heard (.inl yes)
  have shut : known → s.browserShut = true := fun yes => alive.shut (.inl yes)
  have safe := FrameReader.nextSafe s.reader
  simp only [reading, Reverse.rest, List.append_nil] at content counted
  split at stepped
  case h_1 e reader out =>
    cases Option.some.inj stepped
    exact ⟨failsSound (s := { s with reader }) front _,by simp⟩
  case h_2 reader out =>
    obtain rfl := FrameReader.nextNone out
    cases Option.some.inj stepped
    refine ⟨aliveSound ⟨?_,?_,fun _ => rfl,fun _ => by rw [out],fun _ => .inr rfl,fun _ => rfl⟩ rfl,by simp⟩
    · simpa [Reverse.rest] using content
    · simpa [Reverse.rest] using counted
  case h_3 payload reader out =>
    rw [out] at safe
    cases Option.some.inj stepped
    rw [FrameReader.framesNext out, List.flatMap_cons, Frame.payload, ← List.append_assoc] at content
    have unknown : ¬known := fun yes => by simp [(safe.data payload rfl).1] at finished; exact finished yes
    have pending : (if payload.isEmpty then Reverse.flushing else .writing payload).rest = payload := by
      split
      case isTrue empty => rw [List.isEmpty_iff.mp empty]; rfl
      case isFalse => rfl
    refine ⟨owesSound ?_ ?_ unknown ?_,by simp⟩
    · rwa [pending]
    · rw [pending, counted, List.length_append, UInt64.ofNat_add]
    · dsimp only
      split
      · exact .inl rfl
      · exact .inr ⟨payload,rfl⟩
  case h_4 counter shouldAck reader out =>
    rw [out] at safe
    cases Option.some.inj stepped
    refine ⟨readsSound alive reading ?_ safe.kept,?_⟩
    · simp [FrameReader.framesNext out, Frame.payload]
    · split <;> simp
  case h_5 counter reader out =>
    rw [out] at safe
    cases Option.some.inj stepped
    exact ⟨readsSound alive reading (by simp [FrameReader.framesNext out, Frame.payload]) safe.kept,by simp⟩
  case h_6 reader out =>
    rw [out] at safe
    cases Option.some.inj stepped
    refine ⟨aliveSound ⟨?_,?_,fun _ => rfl,fun ended => Bool.noConfusion ended,fun _ => .inl (safe.fin rfl).2,fun _ => rfl⟩ rfl,by simp⟩
    · simpa [Reverse.rest, FrameReader.framesNext out, Frame.payload] using content
    · simpa [Reverse.rest] using counted

theorem agentReadFailedSound {e : StreamError} (alive : s.Alive agent known) (stepped : s.agentReadFailed e = some s') :
    s'.Sound agent known := by
  unfold agentReadFailed at stepped
  split at stepped <;> try contradiction
  cases Option.some.inj stepped
  exact failsSound (aliveFront alive) e

theorem browserWroteSound {count : Nat} (alive : s.Alive agent known) (stepped : s.browserWrote count = some s') :
    s'.Sound agent known := by
  unfold browserWrote at stepped
  split at stepped <;> try contradiction
  rename_i rest writing
  split at stepped <;> try contradiction
  rename_i within
  cases Option.some.inj stepped
  have content := alive.content
  have counted := alive.counted
  simp only [writing, Reverse.rest] at content counted
  have left : (if count = rest.length then Reverse.flushing else .writing (rest.drop count)).rest = rest.drop count := by
    split
    case isTrue all => rw [all, List.drop_length]; rfl
    case isFalse => rfl
  have unknown : ¬known := by
    intro yes
    have none : rest = [] := by simpa [writing, Reverse.rest] using alive.owing yes
    rw [none] at within
    exact absurd within.2 (Nat.not_le.mpr within.1)
  refine owesSound ?_ ?_ unknown ?_
  · rw [← content, left]
    simp only [List.append_assoc, List.take_append_drop]
  · rw [counted, left, List.append_assoc, List.take_append_drop]
  · dsimp only
    split
    · exact .inl rfl
    · exact .inr ⟨_,rfl⟩

theorem browserWriteFailedSound {e : StreamError} (alive : s.Alive agent known) (stepped : s.browserWriteFailed e = some s') :
    s'.Sound agent known := by
  unfold browserWriteFailed at stepped
  split at stepped <;> try contradiction
  all_goals
    cases Option.some.inj stepped
    exact failsSound (aliveFront alive) e

/- Steps between two places that owe nothing. -/
theorem movesSound {stage : Reverse} (alive : s.Alive agent known) (idle : s.stage.rest = []) (after : stage.rest = [])
    (ends : stage.atEof = s.stage.atEof) (closes : stage.closing = true → s.stage.closing = true) (fine : stage.failed = false) :
    { s with stage := stage }.Sound agent known := by
  have content := alive.content
  have counted := alive.counted
  rw [idle] at content counted
  refine aliveSound ⟨?_,?_,fun _ => after,?_,?_,?_⟩ fine
  · rwa [after]
  · rwa [after]
  · rw [ends]
    exact alive.ended
  · rw [ends]
    exact alive.heard ∘ .imp_right closes
  · exact alive.shut ∘ .imp_right closes

theorem browserFlushedSound (alive : s.Alive agent known) (stepped : s.browserFlushed = some s') : s'.Sound agent known := by
  unfold browserFlushed at stepped
  split at stepped <;> try contradiction
  rename_i flushing
  cases Option.some.inj stepped
  exact movesSound alive (by rw [flushing]; rfl) rfl (by rw [flushing]; rfl) nofun rfl

theorem browserShutdownSound (alive : s.Alive agent known) (stepped : s.browserShutdown = some s') : s'.Sound agent known := by
  unfold browserShutdown at stepped
  split at stepped <;> try contradiction
  rename_i eof shutting
  cases Option.some.inj stepped
  exact movesSound alive (by rw [shutting]; rfl) rfl (by rw [shutting]; rfl) (fun _ => by rw [shutting]; rfl) rfl

/- From here on the FIN is known. -/
theorem peerFinSentSound {queue queue' : List FramedEvent} (alive : s.Alive agent known)
    (stepped : s.peerFinSent queue = some (s',queue')) : s'.Sound agent True := by
  unfold peerFinSent at stepped
  split at stepped <;> try contradiction
  rename_i eof notifying
  split at stepped <;> try contradiction
  cases Option.some.inj stepped
  have heard := alive.heard (.inr (by rw [notifying]; rfl))
  have shut := alive.shut (.inr (by rw [notifying]; rfl))
  have told : s.Alive agent True := ⟨alive.content,alive.counted,fun _ => by rw [notifying]; rfl,alive.ended,fun _ => heard,fun _ => shut⟩
  refine movesSound told (by rw [notifying]; rfl) ?_ ?_ ?_ ?_
  · cases eof <;> rfl
  · rw [notifying]
    cases eof <;> rfl
  · rw [notifying]
    exact fun _ => rfl
  · cases eof <;> rfl

end Steps
end ReverseLeg

def Writing.finishes : Writing → Bool
  | .browserFin => true
  | .idleFin => true
  | _ => false

namespace ForwardLeg

/- What the frames handed to the writer have to do with the browser's bytes; a chunk was read and is not yet a frame. -/
structure Carried (browser : Bytes) (sent : List Sent) (chunk : Bytes) (now : Nat) (s : ForwardLeg) : Prop where
  wire : s.writer.w = sent.flatMap Sent.encode
  follows : ∀ rest, Follows s.writer.sentFin rest → Follows false (sent ++ rest)
  bytes : sent.flatMap Sent.payload ++ chunk ++ s.browser = browser
  counted : s.fwdBytes = .ofNat (sent.flatMap Sent.payload ++ chunk).length
  fin : s.writer.sentFin = true → .fin ∈ sent
  unwatched : s.peerFin = true → s.tracker.outstanding = []
  ordered : s.tracker.Ordered now

/- Nothing is left to write, and the FIN was written as far as it was decided. -/
structure Idle (s : ForwardLeg) : Prop where
  flat : s.toAgent = s.writer.w
  own : s.writer.sentFin = s.ownFin

def Staged (s : ForwardLeg) : Prop :=
  match s.stage with
  | .select _ => s.Idle
  | .writing rest what => s.toAgent ++ rest = s.writer.w ∧ s.writer.sentFin = (s.ownFin || what.finishes)
  | .flushing what => s.toAgent = s.writer.w ∧ s.writer.sentFin = (s.ownFin || what.finishes)
  | .shutdown => s.Idle ∧ s.ownFin = true ∧ s.peerFin = true
  | .done (.ok ()) => s.Idle ∧ s.ownFin = true ∧ s.peerFin = true
  | .done (.error _) => s.toAgent <+: s.writer.w

structure Sound (browser : Bytes) (now : Nat) (s : ForwardLeg) : Prop where
  carried : ∃ sent, s.Carried browser sent [] now
  staged : s.Staged

/- What a step of the leg does, with the queue before and after it. -/
structure Moves (browser : Bytes) (now : Nat) (closed : Bool) (s : ForwardLeg) (queue : List FramedEvent) (s' : ForwardLeg)
    (queue' : List FramedEvent) : Prop where
  sound : s'.Sound browser now
  heard : s'.peerFin = true ∨ .peerFin ∈ queue' → s.peerFin = true ∨ .peerFin ∈ queue ∨ closed = true
  dead : s'.stage = .done (.error peerDead) → s.peerFin = false ∧ .peerFin ∉ queue ∧
    (s'.tracker.oldestOutstandingAgeMs now).any (fun age => framedKeepaliveDeadAfterMs ≤ age) = true

section Steps
variable {browser : Bytes} {sent : List Sent} {chunk : Bytes} {now : Nat} {closed : Bool} {s s' : ForwardLeg}
  {queue queue' : List FramedEvent}

theorem soundLater {later : Nat} (sound : s.Sound browser now) (after : now ≤ later) : s.Sound browser later := by
  obtain ⟨⟨sent,carried⟩,staged⟩ := sound
  exact ⟨⟨sent,carried.wire,carried.follows,carried.bytes,carried.counted,carried.fin,carried.unwatched,
    KeepaliveTracker.orderedLater carried.ordered after⟩,staged⟩

theorem nextSound (carried : s.Carried browser sent [] now) (idle : s.Idle) : (s.next now).Sound browser now := by
  unfold next
  split
  case isTrue both =>
    rw [Bool.and_eq_true] at both
    exact ⟨⟨sent,carried.wire,carried.follows,carried.bytes,carried.counted,carried.fin,carried.unwatched,carried.ordered⟩,
      ⟨idle.flat,idle.own⟩,both⟩
  case isFalse =>
    exact ⟨⟨sent,carried.wire,carried.follows,carried.bytes,carried.counted,carried.fin,carried.unwatched,carried.ordered⟩,
      ⟨idle.flat,idle.own⟩⟩

@[simp] theorem nextPeerFin : (s.next now).peerFin = s.peerFin := by
  unfold next
  split <;> rfl

theorem nextAlive {result : Except RelayError Unit} : (s.next now).stage ≠ .done result := by
  unfold next
  split <;> nofun

theorem nextMoves (carried : s.Carried browser sent [] now) (idle : s.Idle)
    (heard : s.peerFin = true ∨ .peerFin ∈ queue' → s'.peerFin = true ∨ .peerFin ∈ queue ∨ closed = true) :
    s'.Moves browser now closed queue (s.next now) queue' :=
  ⟨nextSound carried idle,by simpa using heard,fun dead => absurd dead nextAlive⟩

/- A frame the writer takes. -/
theorem writesSound {op : Op} {what : Writing} (carried : s.Carried browser sent chunk now) (flat : s.toAgent = s.writer.w)
    (takes : (s.writer.call op).1 = .ok ()) (payload : op.sent.flatMap Sent.payload = chunk)
    (own : (s.writer.call op).2.sentFin = (s.ownFin || what.finishes)) : (s.writes what (s.writer.call op)).Sound browser now := by
  obtain ⟨refused,_⟩ | ⟨_,appended,follows⟩ := FrameWriter.callCases s.writer op
  · rw [takes] at refused
    contradiction
  · have fin := FrameWriter.callFin s.writer op
    obtain ⟨⟨answer,writer⟩,same⟩ : ∃ out, s.writer.call op = out := ⟨_,rfl⟩
    rw [same] at takes appended follows fin own ⊢
    obtain rfl : answer = .ok () := takes
    refine ⟨⟨sent ++ op.sent,?_,?_,?_,?_,?_,carried.unwatched,carried.ordered⟩,?_⟩
    · rw [List.flatMap_append, ← carried.wire]
      exact appended
    · intro rest after
      rw [List.append_assoc]
      exact carried.follows _ (follows rest after)
    · rw [List.flatMap_append, payload, List.append_nil]
      exact carried.bytes
    · rw [List.flatMap_append, payload, List.append_nil]
      exact carried.counted
    · intro finished
      obtain before | here := fin finished
      · exact List.mem_append_left _ (carried.fin before)
      · exact List.mem_append_right _ here
    · refine ⟨?_,own⟩
      show s.toAgent ++ writer.w.drop s.writer.w.length = writer.w
      rw [appended, List.drop_left, flat]

@[simp] theorem writesPeerFin {what : Writing} {answer : Except IoError Unit × FrameWriter} : (s.writes what answer).peerFin = s.peerFin := by
  obtain ⟨e | _,writer⟩ := answer <;> rfl

theorem writesAlive {what : Writing} {answer : Except IoError Unit × FrameWriter} : (s.writes what answer).stage ≠ .done (.error peerDead) := by
  obtain ⟨e | _,writer⟩ := answer
  · intro dead
    exact notPeerDead _ _ _ (Except.error.inj (Forward.done.inj dead))
  · nofun

theorem failsMoves (sound : s.Sound browser now) (flat : s.toAgent <+: s.writer.w) (e : StreamError) :
    s.Moves browser now closed queue (s.fails e) queue := by
  obtain ⟨⟨sent,carried⟩,_⟩ := sound
  exact ⟨⟨⟨sent,carried.wire,carried.follows,carried.bytes,carried.counted,carried.fin,carried.unwatched,carried.ordered⟩,flat⟩,
    .imp_right .inl,fun dead => absurd (Except.error.inj (Forward.done.inj dead)) (notPeerDead _ _ _)⟩

theorem selectIdle {dead : Option Nat} (sound : s.Sound browser now) (stage : s.stage = .select dead) : s.Idle := by
  simpa [Staged, stage] using sound.staged

theorem finSound {what : Writing} (carried : s.Carried browser sent [] now) (idle : s.Idle) (own : s.ownFin = false)
    (finishes : what.finishes = true) : (s.writes what s.writer.fin).Sound browser now := by
  have pending : s.writer.sentFin = false := idle.own.trans own
  have call : s.writer.call .fin = (.ok (),{ s.writer with sentFin := true }.writeAll [frameFin]) := by
    simp [FrameWriter.call, FrameWriter.fin, pending]
  refine @writesSound _ _ _ _ _ .fin _ carried idle.flat (by rw [call]) rfl ?_
  rw [call, finishes, Bool.or_true]
  rfl

theorem browserReadMoves {count : Nat} (sound : s.Sound browser now) (stepped : s.browserRead count = some s') :
    s.Moves browser now closed queue s' queue := by
  unfold browserRead at stepped
  split at stepped <;> try contradiction
  rename_i dead stage
  split at stepped <;> try contradiction
  rename_i ready
  obtain ⟨own,fits,present,_⟩ := ready
  have idle := selectIdle sound stage
  obtain ⟨⟨sent,carried⟩,_⟩ := sound
  split at stepped
  case isTrue =>
    cases Option.some.inj stepped
    exact ⟨finSound carried idle own rfl,by simpa using .imp_right .inl,fun dead => absurd dead writesAlive⟩
  case isFalse =>
    cases Option.some.inj stepped
    refine ⟨?_,by simpa using .imp_right .inl,fun dead => absurd dead writesAlive⟩
    have length : (s.browser.take count).length = count := List.length_take_of_le present
    have read : ({ s with browser := s.browser.drop count, fwdBytes := s.fwdBytes + UInt64.ofNat count } : ForwardLeg).Carried browser sent
        (s.browser.take count) now := by
      refine ⟨carried.wire,carried.follows,?_,?_,carried.fin,carried.unwatched,carried.ordered⟩
      · rw [List.append_assoc, List.take_append_drop, ← carried.bytes, List.append_nil]
      · rw [List.length_append, length, UInt64.ofNat_add, carried.counted, List.append_nil]
    have small : ¬maxFramePayload < (s.browser.take count).length := by
      rw [length]
      exact Nat.not_lt.mpr (fits.trans (by decide))
    have call : s.writer.call (.data (s.browser.take count)) =
        (.ok (),s.writer.writeAll (frameData :: (be 4 (s.browser.take count).length ++ s.browser.take count))) := by
      rw [FrameWriter.call, FrameWriter.data, if_neg (by simp [idle.own.trans own]), if_neg small]
    refine @writesSound _ _ _ _ _ (.data (s.browser.take count)) _ read idle.flat (by rw [call]) (by simp [Op.sent, Sent.payload]) ?_
    rw [call]
    exact idle.own.trans (Bool.or_false _).symm

theorem browserReadFailedMoves {e : StreamError} (sound : s.Sound browser now) (stepped : s.browserReadFailed e = some s') :
    s.Moves browser now closed queue s' queue := by
  unfold browserReadFailed at stepped
  split at stepped <;> try contradiction
  rename_i dead stage
  split at stepped <;> try contradiction
  cases Option.some.inj stepped
  have idle := selectIdle sound stage
  exact failsMoves sound (by rw [idle.flat]) e

theorem hearFinCarried (carried : s.Carried browser sent [] now) : (s.hearFin now).Carried browser sent [] now :=
  ⟨carried.wire,carried.follows,carried.bytes,carried.counted,carried.fin,fun _ => rfl,KeepaliveTracker.newOrdered⟩

theorem ackCarried (carried : s.Carried browser sent [] now) (counter : UInt64) :
    { s with tracker := s.tracker.ack counter }.Carried browser sent [] now := by
  refine ⟨carried.wire,carried.follows,carried.bytes,carried.counted,carried.fin,?_,KeepaliveTracker.ackOrdered carried.ordered counter⟩
  intro finished
  show s.tracker.outstanding.filter _ = []
  rw [carried.unwatched finished]
  rfl

/- A keepalive or an acknowledgement, which the writer always takes. -/
theorem pingSound {op : Op} {what : Writing} (carried : s.Carried browser sent [] now) (idle : s.Idle)
    (takes : (s.writer.call op).1 = .ok ()) (own : (s.writer.call op).2.sentFin = s.writer.sentFin)
    (payload : op.sent.flatMap Sent.payload = []) (open' : what.finishes = false) :
    (s.writes what (s.writer.call op)).Sound browser now :=
  writesSound carried idle.flat takes payload (by rw [own, open', Bool.or_false, idle.own])

theorem ackMoves {counter : UInt64} {what : Writing} {rest : List FramedEvent} (carried : s.Carried browser sent [] now) (idle : s.Idle)
    (open' : what.finishes = false) (queued : queue = .ack counter :: rest) :
    s.Moves browser now closed queue (s.writes what (s.writer.keepaliveAck counter)) rest := by
  refine ⟨@pingSound _ _ _ _ (.keepaliveAck counter) _ carried idle rfl rfl rfl open',?_,fun dead => absurd dead writesAlive⟩
  rw [writesPeerFin, queued]
  exact .imp_right (fun mem => .inl (List.mem_cons_of_mem _ mem))

theorem eventReceivedMoves (sound : s.Sound browser now) (stepped : s.eventReceived queue closed now = some (s',queue')) :
    s.Moves browser now closed queue s' queue' := by
  unfold eventReceived at stepped
  split at stepped <;> try contradiction
  rename_i dead stage
  split at stepped <;> try contradiction
  have idle := selectIdle sound stage
  obtain ⟨⟨sent,carried⟩,_⟩ := sound
  split at stepped
  case h_1 counter rest =>
    cases Option.some.inj stepped
    exact ackMoves carried idle rfl rfl
  case h_2 counter rest =>
    cases Option.some.inj stepped
    exact nextMoves (ackCarried carried counter) ⟨idle.flat,idle.own⟩ (.imp_right (fun mem => .inl (List.mem_cons_of_mem _ mem)))
  case h_3 rest =>
    cases Option.some.inj stepped
    exact nextMoves (hearFinCarried carried) ⟨idle.flat,idle.own⟩ (fun _ => .inr (.inl List.mem_cons_self))
  case h_4 =>
    split at stepped <;> try contradiction
    rename_i gone
    cases Option.some.inj stepped
    have shut : { s with eventsOpen := false }.Carried browser sent [] now :=
      ⟨carried.wire,carried.follows,carried.bytes,carried.counted,carried.fin,carried.unwatched,carried.ordered⟩
    exact nextMoves (hearFinCarried shut) ⟨idle.flat,idle.own⟩ (fun _ => .inr (.inr gone))

theorem keepaliveDueMoves (sound : s.Sound browser now) (stepped : s.keepaliveDue now = some s') :
    s.Moves browser now closed queue s' queue := by
  unfold keepaliveDue at stepped
  split at stepped <;> try contradiction
  rename_i dead stage
  split at stepped <;> try contradiction
  cases Option.some.inj stepped
  have idle := selectIdle sound stage
  obtain ⟨⟨sent,carried⟩,_⟩ := sound
  refine ⟨?_,by simpa using .imp_right .inl,fun dead => absurd dead writesAlive⟩
  refine @pingSound _ sent _ _ (.keepalive s.nextCounter) _ ?_ ⟨idle.flat,idle.own⟩ rfl rfl rfl rfl
  refine ⟨carried.wire,carried.follows,carried.bytes,carried.counted,carried.fin,?_,?_⟩
  · intro finished
    show (if s.peerFin then s.tracker else s.tracker.sent s.nextCounter now).outstanding = []
    rw [if_pos finished]
    exact carried.unwatched finished
  · show (if s.peerFin then s.tracker else s.tracker.sent s.nextCounter now).Ordered now
    split
    · exact carried.ordered
    · exact KeepaliveTracker.sentOrdered carried.ordered _

theorem idleElapsedMoves (sound : s.Sound browser now) (stepped : s.idleElapsed now = some s') :
    s.Moves browser now closed queue s' queue := by
  unfold idleElapsed at stepped
  split at stepped <;> try contradiction
  rename_i dead stage
  split at stepped <;> try contradiction
  rename_i due
  cases Option.some.inj stepped
  have idle := selectIdle sound stage
  obtain ⟨⟨sent,carried⟩,_⟩ := sound
  exact ⟨finSound carried idle due.2.1 rfl,by simpa using .imp_right .inl,fun dead => absurd dead writesAlive⟩

theorem judgeMoves (carried : s.Carried browser sent [] now) (idle : s.Idle) : s.Moves browser now closed [] (s.judge now) [] := by
  unfold judge
  split
  case isTrue aged =>
    refine ⟨⟨⟨sent,carried.wire,carried.follows,carried.bytes,carried.counted,carried.fin,carried.unwatched,carried.ordered⟩,?_⟩,
      .imp_right .inl,fun _ => ⟨?_,by simp,aged⟩⟩
    · exact (congrArg (fun w => s.toAgent <+: w) idle.flat).mp (List.prefix_refl _)
    · by_contra finished
      rw [KeepaliveTracker.oldestOutstandingAgeMs, carried.unwatched (by simpa using finished)] at aged
      contradiction
  case isFalse => exact nextMoves carried idle (.imp_right .inl)

/- The drain, event by event; a FIN in the queue leaves nothing to judge. -/
theorem drainMoves (carried : s.Carried browser sent [] now) (idle : s.Idle) :
    s.Moves browser now closed queue (s.drain now queue).1 (s.drain now queue).2 := by
  induction queue generalizing s with
  | nil => exact judgeMoves carried idle
  | cons event rest ih =>
    cases event with
    | ack counter => exact ackMoves carried idle rfl rfl
    | ackSeen counter =>
      obtain ⟨sound,heard,dead⟩ := ih (ackCarried carried counter) ⟨idle.flat,idle.own⟩
      refine ⟨sound,fun told => (heard told).imp_right (.imp_left (List.mem_cons_of_mem _)),?_⟩
      intro verdict
      obtain ⟨pending,unqueued,aged⟩ := dead verdict
      exact ⟨pending,by simpa using unqueued,aged⟩
    | peerFin =>
      obtain ⟨sound,_,dead⟩ := ih (hearFinCarried carried) ⟨idle.flat,idle.own⟩
      exact ⟨sound,fun _ => .inr (.inl List.mem_cons_self),fun verdict => absurd (dead verdict).1 (by simp [hearFin])⟩

theorem deadlineMoves (sound : s.Sound browser now) (stepped : s.deadline queue now = some (s',queue')) :
    s.Moves browser now closed queue s' queue' := by
  unfold deadline at stepped
  split at stepped <;> try contradiction
  rename_i dead stage
  split at stepped <;> try contradiction
  have idle := selectIdle sound stage
  obtain ⟨⟨sent,carried⟩,_⟩ := sound
  have moves : s.Moves browser now closed queue (s.drain now queue).1 (s.drain now queue).2 := drainMoves carried idle
  rwa [Option.some.inj stepped] at moves

theorem writtenMoves {what : Writing} (carried : s.Carried browser sent [] now) (flat : s.toAgent = s.writer.w)
    (own : s.writer.sentFin = (s.ownFin || what.finishes)) : s.Moves browser now closed queue (s.written what now) queue := by
  have flushes : ∀ m : ForwardLeg, m.Carried browser sent [] now → m.toAgent = m.writer.w →
      m.writer.sentFin = (m.ownFin || what.finishes) → m.peerFin = s.peerFin →
      s.Moves browser now closed queue { m with stage := .flushing what } queue := by
    intro m carried flat own same
    exact ⟨⟨⟨sent,carried.wire,carried.follows,carried.bytes,carried.counted,carried.fin,carried.unwatched,carried.ordered⟩,flat,own⟩,
      by rw [same]; exact .imp_right .inl,nofun⟩
  unfold written
  split
  case h_1 short =>
    have stamped : { s with lastFwdData := now }.Carried browser sent [] now :=
      ⟨carried.wire,carried.follows,carried.bytes,carried.counted,carried.fin,carried.unwatched,carried.ordered⟩
    dsimp only
    split
    · exact flushes _ stamped flat own rfl
    · refine @nextMoves _ sent _ _ _ _ _ _ ?_ ⟨flat,by rw [own]; exact Bool.or_false _⟩ (.imp_right .inl)
      exact ⟨carried.wire,carried.follows,carried.bytes,carried.counted,carried.fin,carried.unwatched,carried.ordered⟩
  case h_2 => exact flushes s carried flat own rfl

theorem agentWroteMoves {count : Nat} (sound : s.Sound browser now) (stepped : s.agentWrote count now = some s') :
    s.Moves browser now closed queue s' queue := by
  unfold agentWrote at stepped
  split at stepped <;> try contradiction
  rename_i rest what stage
  split at stepped <;> try contradiction
  cases Option.some.inj stepped
  obtain ⟨⟨sent,carried⟩,staged⟩ := sound
  obtain ⟨left,own⟩ : s.toAgent ++ rest = s.writer.w ∧ s.writer.sentFin = (s.ownFin || what.finishes) := by
    simpa [Staged, stage] using staged
  have moved : { s with toAgent := s.toAgent ++ rest.take count }.Carried browser sent [] now :=
    ⟨carried.wire,carried.follows,carried.bytes,carried.counted,carried.fin,carried.unwatched,carried.ordered⟩
  split
  case isTrue all =>
    have moves : ({ s with toAgent := s.toAgent ++ rest.take count } : ForwardLeg).Moves browser now closed queue _ queue :=
      writtenMoves moved (by rw [all, List.take_length]; exact left) own
    exact ⟨moves.sound,moves.heard,moves.dead⟩
  case isFalse =>
    refine ⟨⟨⟨sent,carried.wire,carried.follows,carried.bytes,carried.counted,carried.fin,carried.unwatched,carried.ordered⟩,?_,own⟩,
      .imp_right .inl,nofun⟩
    show s.toAgent ++ rest.take count ++ rest.drop count = s.writer.w
    rw [List.append_assoc, List.take_append_drop, left]

theorem agentWriteFailedMoves {e : StreamError} (sound : s.Sound browser now) (stepped : s.agentWriteFailed e = some s') :
    s.Moves browser now closed queue s' queue := by
  have staged := sound.staged
  unfold agentWriteFailed at stepped
  split at stepped <;> try contradiction
  case h_1 rest what stage =>
    cases Option.some.inj stepped
    refine failsMoves sound ?_ e
    simp only [Staged, stage] at staged
    rw [← staged.1]
    exact List.prefix_append _ _
  case h_2 what stage =>
    cases Option.some.inj stepped
    refine failsMoves sound ?_ e
    simp only [Staged, stage] at staged
    rw [staged.1]

theorem agentFlushedMoves (sound : s.Sound browser now) (stepped : s.agentFlushed queue now = some (s',queue')) :
    s.Moves browser now closed queue s' queue' := by
  unfold agentFlushed at stepped
  split at stepped <;> try contradiction
  rename_i what stage
  obtain ⟨⟨sent,carried⟩,staged⟩ := sound
  simp only [Staged, stage] at staged
  obtain ⟨flat,own⟩ := staged
  have stamped : { s with lastSend := now }.Carried browser sent [] now :=
    ⟨carried.wire,carried.follows,carried.bytes,carried.counted,carried.fin,carried.unwatched,carried.ordered⟩
  have back : what.finishes = false → ({ s with lastSend := now } : ForwardLeg).Idle := fun open' => ⟨flat,by rw [own, open']; exact Bool.or_false _⟩
  have finished : what.finishes = true → s.writer.sentFin = true := fun finishes => by rw [own, finishes, Bool.or_true]
  cases what with
  | data short =>
    cases Option.some.inj stepped
    exact nextMoves stamped (back rfl) (.imp_right .inl)
  | ack =>
    cases Option.some.inj stepped
    exact nextMoves stamped (back rfl) (.imp_right .inl)
  | keepalive =>
    cases Option.some.inj stepped
    exact nextMoves stamped (back rfl) (.imp_right .inl)
  | browserFin =>
    cases Option.some.inj stepped
    refine @nextMoves _ sent _ _ _ _ _ _ ?_ ⟨flat,finished rfl⟩ (.imp_right .inl)
    exact ⟨carried.wire,carried.follows,carried.bytes,carried.counted,carried.fin,carried.unwatched,carried.ordered⟩
  | idleFin =>
    cases Option.some.inj stepped
    refine @nextMoves _ sent _ _ _ _ _ _ ?_ ⟨flat,finished rfl⟩ (.imp_right .inl)
    exact ⟨carried.wire,carried.follows,carried.bytes,carried.counted,carried.fin,carried.unwatched,carried.ordered⟩
  | drainedAck =>
    have moves : ({ s with lastSend := now } : ForwardLeg).Moves browser now closed queue
        (({ s with lastSend := now } : ForwardLeg).drain now queue).1 (({ s with lastSend := now } : ForwardLeg).drain now queue).2 :=
      drainMoves stamped (back rfl)
    have out : ({ s with lastSend := now } : ForwardLeg).drain now queue = (s',queue') := Option.some.inj stepped
    rw [out] at moves
    exact ⟨moves.sound,moves.heard,moves.dead⟩

theorem agentShutdownMoves (sound : s.Sound browser now) (stepped : s.agentShutdown = some s') :
    s.Moves browser now closed queue s' queue := by
  unfold agentShutdown at stepped
  split at stepped <;> try contradiction
  rename_i stage
  cases Option.some.inj stepped
  obtain ⟨⟨sent,carried⟩,staged⟩ := sound
  simp only [Staged, stage] at staged
  exact ⟨⟨⟨sent,carried.wire,carried.follows,carried.bytes,carried.counted,carried.fin,carried.unwatched,carried.ordered⟩,
    ⟨staged.1.flat,staged.1.own⟩,staged.2⟩,.imp_right .inl,nofun⟩

end Steps
end ForwardLeg

namespace Relay

/- The agent's FIN, as far as the writing leg can know of it. -/
def Told (s : Relay) : Prop := s.fwd.peerFin = true ∨ .peerFin ∈ s.queue

structure Sound (agent browser : Bytes) (s : Relay) : Prop where
  rev : s.rev.Sound agent s.Told
  fwd : s.fwd.Sound browser s.clock
  one : s.rev.stage.failed = true → ∀ result, s.fwd.stage ≠ .done result

section Steps
variable {agent browser : Bytes} {s s' : Relay} {now : Nat} {event : Event}

theorem resultNone (running : s.result = none) : (∀ result, s.fwd.stage ≠ .done result) ∧ s.rev.stage.failed = false := by
  unfold result at running
  split at running <;> try contradiction
  rename_i failed returned
  refine ⟨?_,?_⟩
  · intro result stage
    cases result with
    | error e => exact failed e stage
    | ok u => exact returned stage
  · split at running <;> try contradiction
    rename_i fine
    cases stage : s.rev.stage with
    | done result =>
      cases result with
      | error e => exact absurd stage (fine e)
      | ok u => rfl
    | _ => rfl

theorem trySendMem {queue : List FramedEvent} {offer : Option FramedEvent} (other : offer ≠ some .peerFin)
    (mem : .peerFin ∈ trySend queue offer) : .peerFin ∈ queue := by
  unfold trySend at mem
  split at mem
  · obtain before | new := List.mem_append.mp mem
    · exact before
    · exact absurd (Option.mem_toList.mp new) other
  · exact mem

/- A step of the first leg, and one of the second. -/
theorem revSound {rev : ReverseLeg} {queue : List FramedEvent} (sound : s.Sound agent browser) (running : s.result = none)
    (after : s.clock ≤ now) (moved : rev.Sound agent (Told ⟨rev,s.fwd,queue,now⟩)) : Sound agent browser ⟨rev,s.fwd,queue,now⟩ :=
  ⟨moved,ForwardLeg.soundLater sound.fwd after,fun _ => (resultNone running).1⟩

theorem fwdSound {fwd : ForwardLeg} {queue : List FramedEvent} (sound : s.Sound agent browser) (running : s.result = none)
    (moves : s.fwd.Moves browser now s.rev.closed s.queue fwd queue) : Sound agent browser ⟨s.rev,fwd,queue,now⟩ := by
  have fine := (resultNone running).2
  refine ⟨ReverseLeg.soundTold sound.rev ?_,moves.sound,by simp [fine]⟩
  intro told
  obtain finished | queued | closed := moves.heard told
  · exact .inl (.inl finished)
  · exact .inl (.inr queued)
  · refine .inr ?_
    cases stage : s.rev.stage with
    | done result =>
      rw [stage] at fine
      cases result with
      | error e => contradiction
      | ok u => rfl
    | _ => simp [ReverseLeg.closed, stage] at closed

/- What a step is: one leg moves. -/
theorem stepCases (sound : s.Sound agent browser) (stepped : s.step now event = some s') :
    s.result = none ∧ s.clock ≤ now ∧
      ((∃ rev queue, s' = ⟨rev,s.fwd,queue,now⟩ ∧ rev.Sound agent s'.Told) ∨
        ∃ fwd queue, s' = ⟨s.rev,fwd,queue,now⟩ ∧ s.fwd.Moves browser now s.rev.closed s.queue fwd queue) := by
  unfold step at stepped
  split at stepped <;> try contradiction
  rename_i ready
  obtain ⟨running,after⟩ := not_or.mp ready
  have running : s.result = none := by simpa using running
  have after := Nat.not_lt.mp after
  refine ⟨running,after,?_⟩
  have alive := sound.rev.alive (resultNone running).2
  have fwd := ForwardLeg.soundLater sound.fwd after
  cases event with
  | agentFrame =>
    obtain ⟨⟨rev,offer⟩,moved,rfl⟩ := Option.map_eq_some_iff.mp stepped
    obtain ⟨moved,other⟩ := ReverseLeg.agentFrameSound alive moved
    exact .inl ⟨rev,_,rfl,ReverseLeg.soundTold moved (fun told => .inl (told.imp_right (trySendMem other)))⟩
  | agentReadFailed e =>
    obtain ⟨rev,moved,rfl⟩ := Option.map_eq_some_iff.mp stepped
    exact .inl ⟨rev,_,rfl,ReverseLeg.agentReadFailedSound alive moved⟩
  | browserWrote count =>
    obtain ⟨rev,moved,rfl⟩ := Option.map_eq_some_iff.mp stepped
    exact .inl ⟨rev,_,rfl,ReverseLeg.browserWroteSound alive moved⟩
  | browserWriteFailed e =>
    obtain ⟨rev,moved,rfl⟩ := Option.map_eq_some_iff.mp stepped
    exact .inl ⟨rev,_,rfl,ReverseLeg.browserWriteFailedSound alive moved⟩
  | browserFlushed =>
    obtain ⟨rev,moved,rfl⟩ := Option.map_eq_some_iff.mp stepped
    exact .inl ⟨rev,_,rfl,ReverseLeg.browserFlushedSound alive moved⟩
  | browserShutdown =>
    obtain ⟨rev,moved,rfl⟩ := Option.map_eq_some_iff.mp stepped
    exact .inl ⟨rev,_,rfl,ReverseLeg.browserShutdownSound alive moved⟩
  | peerFinSent =>
    obtain ⟨⟨rev,queue⟩,moved,rfl⟩ := Option.map_eq_some_iff.mp stepped
    exact .inl ⟨rev,_,rfl,ReverseLeg.soundTold (ReverseLeg.peerFinSentSound alive moved) (fun _ => .inl trivial)⟩
  | browserRead count =>
    obtain ⟨m,moved,rfl⟩ := Option.map_eq_some_iff.mp stepped
    exact .inr ⟨m,_,rfl,ForwardLeg.browserReadMoves fwd moved⟩
  | browserReadFailed e =>
    obtain ⟨m,moved,rfl⟩ := Option.map_eq_some_iff.mp stepped
    exact .inr ⟨m,_,rfl,ForwardLeg.browserReadFailedMoves fwd moved⟩
  | eventReceived =>
    obtain ⟨⟨m,queue⟩,moved,rfl⟩ := Option.map_eq_some_iff.mp stepped
    exact .inr ⟨m,_,rfl,ForwardLeg.eventReceivedMoves fwd moved⟩
  | keepaliveDue =>
    obtain ⟨m,moved,rfl⟩ := Option.map_eq_some_iff.mp stepped
    exact .inr ⟨m,_,rfl,ForwardLeg.keepaliveDueMoves fwd moved⟩
  | idleElapsed =>
    obtain ⟨m,moved,rfl⟩ := Option.map_eq_some_iff.mp stepped
    exact .inr ⟨m,_,rfl,ForwardLeg.idleElapsedMoves fwd moved⟩
  | deadline =>
    obtain ⟨⟨m,queue⟩,moved,rfl⟩ := Option.map_eq_some_iff.mp stepped
    exact .inr ⟨m,_,rfl,ForwardLeg.deadlineMoves fwd moved⟩
  | agentWrote count =>
    obtain ⟨m,moved,rfl⟩ := Option.map_eq_some_iff.mp stepped
    exact .inr ⟨m,_,rfl,ForwardLeg.agentWroteMoves fwd moved⟩
  | agentWriteFailed e =>
    obtain ⟨m,moved,rfl⟩ := Option.map_eq_some_iff.mp stepped
    exact .inr ⟨m,_,rfl,ForwardLeg.agentWriteFailedMoves fwd moved⟩
  | agentFlushed =>
    obtain ⟨⟨m,queue⟩,moved,rfl⟩ := Option.map_eq_some_iff.mp stepped
    exact .inr ⟨m,_,rfl,ForwardLeg.agentFlushedMoves fwd moved⟩
  | agentShutdown =>
    obtain ⟨m,moved,rfl⟩ := Option.map_eq_some_iff.mp stepped
    exact .inr ⟨m,_,rfl,ForwardLeg.agentShutdownMoves fwd moved⟩

theorem stepSound (sound : s.Sound agent browser) (stepped : s.step now event = some s') : s'.Sound agent browser := by
  obtain ⟨running,after,⟨rev,queue,rfl,moved⟩ | ⟨fwd,queue,rfl,moves⟩⟩ := stepCases sound stepped
  · exact revSound sound running after moved
  · exact fwdSound sound running moves

theorem newSound (agent browser : Bytes) : (new agent browser).Sound agent browser := by
  refine ⟨ReverseLeg.aliveSound ⟨rfl,rfl,fun _ => rfl,nofun,?_,?_⟩ rfl,⟨⟨[],rfl,fun _ follows => follows,rfl,rfl,nofun,nofun,
    KeepaliveTracker.newOrdered⟩,⟨rfl,rfl⟩⟩,nofun⟩
  · simp [Told, new, Reverse.closing]
  · simp [Told, new, Reverse.closing]

theorem runSound {events : List (Nat × Event)} (ran : (new agent browser).run events = some s) : s.Sound agent browser := by
  induction events using List.reverseRecOn generalizing s with
  | nil =>
    cases Option.some.inj ran
    exact newSound agent browser
  | append_singleton events e ih =>
    rw [run, List.foldlM_append] at ran
    obtain ⟨m,before,last⟩ := Option.bind_eq_some_iff.mp ran
    exact stepSound (ih before) (by simpa using last)

/- The frames towards the agent carry the browser's bytes in order, with one FIN and nothing after it. -/
structure Delivered (browser toAgent : Bytes) (sent : List Sent) : Prop where
  wire : toAgent <+: sent.flatMap Sent.encode
  payload : sent.flatMap Sent.payload <+: browser
  once : sent.count .fin ≤ 1
  order : sent.Pairwise (fun earlier later => earlier = .fin → ∀ payload, later ≠ .data payload)

theorem carriedDelivered {sent : List Sent} {fwd : ForwardLeg} (carried : fwd.Carried browser sent [] now) (staged : fwd.Staged) :
    Delivered browser fwd.toAgent sent := by
  have follows : Follows false sent := by
    have all := carried.follows [] trivial
    rwa [List.append_nil] at all
  refine ⟨?_,?_,followsCount follows,(followsPairwise follows).imp (fun quiet fin => (quiet fin).2)⟩
  · rw [← carried.wire]
    unfold ForwardLeg.Staged at staged
    split at staged
    · rw [staged.flat]
    · rw [← staged.1]
      exact List.prefix_append _ _
    · rw [staged.1]
    · rw [staged.1.flat]
    · rw [staged.1.flat]
    · exact staged
  · rw [← carried.bytes, List.append_nil]
    exact List.prefix_append _ _

theorem resultOk {counts : UInt64 × UInt64} (sound : s.Sound agent browser) (returned : s.result = some (.ok counts)) :
    s.fwd.stage = .done (.ok ()) ∧ counts = (s.fwd.fwdBytes,s.rev.revBytes) ∧ s.rev.stage.failed = false := by
  unfold result at returned
  split at returned
  case h_1 => simp at returned
  case h_2 stage =>
    refine ⟨stage,(Except.ok.inj (Option.some.inj returned)).symm,?_⟩
    by_contra failed
    exact sound.one (by simpa using failed) _ stage
  case h_3 => split at returned <;> simp at returned

theorem resultDead (sound : s.Sound agent browser) (returned : s.result = some (.error peerDead)) :
    s.fwd.stage = .done (.error peerDead) := by
  unfold result at returned
  split at returned
  case h_1 e stage => rw [stage, Except.error.inj (Option.some.inj returned)]
  case h_2 => simp at returned
  case h_3 =>
    split at returned
    case h_1 e stage =>
      rw [Except.error.inj (Option.some.inj returned)] at stage
      exact absurd stage sound.rev.io
    case h_2 => contradiction

end Steps
end Relay

open Relay in
/- Whatever the order of events: the browser gets a front of the agent's payloads, the agent a front of the browser's bytes in
frames that keep the FIN rules; `Ok` is both in whole, and the verdict on the peer falls only over an old keepalive and no FIN. -/
theorem relayFaithful {agent browser : Bytes} {events : List (Nat × Event)} {s : Relay} (ran : (new agent browser).run events = some s) :
    (∀ ops, agent = (FrameWriter.run ops).w → dataBytes agent = (FrameWriter.accepted ops).flatMap Sent.payload) ∧
    s.rev.toBrowser <+: dataBytes agent ∧
    (∃ sent, Delivered browser s.fwd.toAgent sent ∧
      ∀ fwdBytes revBytes, s.result = some (.ok (fwdBytes,revBytes)) →
        s.rev.toBrowser = dataBytes agent ∧ s.rev.browserShut = true ∧ (s.rev.reader.peerFin = true ∨ s.rev.reader.next.1 = .ok none) ∧
        s.fwd.toAgent = sent.flatMap Sent.encode ∧ .fin ∈ sent ∧
        fwdBytes = .ofNat (sent.flatMap Sent.payload).length ∧ revBytes = .ofNat s.rev.toBrowser.length) ∧
    ∀ now event s', s.step now event = some s' → s'.result = some (.error peerDead) →
      s.fwd.peerFin = false ∧ .peerFin ∉ s.queue ∧
      ∃ oldest ∈ s'.fwd.tracker.outstanding, (∀ e ∈ s'.fwd.tracker.outstanding, oldest.2 ≤ e.2) ∧
        oldest.2 + framedKeepaliveDeadAfterMs ≤ now := by
  have sound := runSound ran
  obtain ⟨sent,carried⟩ := sound.fwd.carried
  have staged := sound.fwd.staged
  refine ⟨?_,sound.rev.front,⟨sent,carriedDelivered carried staged,?_⟩,?_⟩
  · rintro ops rfl
    exact payloadsRead ops
  · intro fwdBytes revBytes returned
    obtain ⟨stage,counts,fine⟩ := resultOk sound returned
    obtain ⟨rfl,rfl⟩ := Prod.mk.inj counts
    simp only [ForwardLeg.Staged, stage] at staged
    obtain ⟨idle,own,heard⟩ := staged
    have alive := sound.rev.alive fine
    have told : s.Told ∨ s.rev.stage.closing = true := .inl (.inl heard)
    have counted := alive.counted
    rw [alive.owing (.inl heard), List.append_nil] at counted
    refine ⟨ReverseLeg.aliveAll alive told,alive.shut told,(alive.heard told).imp_right alive.ended,?_,carried.fin (idle.own.trans own),?_,counted⟩
    · rw [idle.flat, carried.wire]
    · rw [carried.counted, List.append_nil]
  · intro now event s' stepped dead
    have after := stepSound sound stepped
    have verdict := resultDead after dead
    obtain ⟨running,_,⟨rev,queue,rfl,_⟩ | ⟨fwd,queue,rfl,moves⟩⟩ := stepCases sound stepped
    · exact absurd verdict ((resultNone running).1 _)
    · obtain ⟨pending,unqueued,aged⟩ := moves.dead verdict
      obtain ⟨_,last⟩ := moves.sound.carried
      exact ⟨pending,unqueued,KeepaliveTracker.oldestAged last.ordered aged (by decide)⟩
/- The agent's FIN is queued behind an acknowledgement, the browser ends later; a keepalive after the FIN is not answered. -/
theorem relaySample :
    let agent := (FrameWriter.run [.data [1,2,3],.keepalive 5,.data [],.fin,.keepalive 5]).w
    let events : List (Nat × Event) := [(1,.agentFrame),(1,.browserWrote 2),(2,.browserRead 2),(2,.agentWrote 3),(3,.browserWrote 1),
      (3,.browserFlushed),(4,.agentWrote 4),(4,.agentFlushed),(5,.agentFrame),(7,.agentFrame),(7,.browserFlushed),(8,.agentFrame),
      (8,.browserShutdown),(8,.peerFinSent),(9,.eventReceived),(9,.agentWrote 9),(9,.agentFlushed),(9,.eventReceived),(9,.agentFrame),
      (10,.browserRead 0),(10,.agentWrote 1),(10,.agentFlushed),(10,.agentShutdown)]
    ∃ s, (Relay.new agent [7,8]).run events = some s ∧ s.result = some (.ok (2,3)) ∧ s.rev.toBrowser = [1,2,3] ∧
      s.rev.toBrowser <+: dataBytes agent := by
  intro agent events
  have ran : (Relay.new agent [7,8]).run events = some (((Relay.new agent [7,8]).run events).get (by decide +kernel)) :=
    (Option.some_get _).symm
  exact ⟨_,ran,by decide +kernel,by decide +kernel,(relayFaithful ran).2.1⟩

/- Nothing is heard for 24 seconds; a queued FIN in the same moment would have saved the peer. -/
example : let kept : List (Nat × Event) := [(8000,.keepaliveDue),(8000,.agentWrote 9),(8000,.agentFlushed)]
    let fin : List (Nat × Event) := [(9000,.agentFrame),(9000,.browserShutdown),(9000,.peerFinSent)]
    let verdict := fun events => ((Relay.new [frameFin] [7]).run events).map (fun s => s.result.isSome)
    verdict (kept ++ [(32000,.deadline)]) = some true ∧ verdict (kept ++ fin ++ [(32000,.deadline)]) = some false := by decide +kernel

end CadsTunnel.FramedRelay
