import CadsTunnel.EdgeServe
import CadsTunnel.Oneshot

/-! The hand-off of a parked fallback connection. While no client is there the edge sends a
PING now and then and waits for its PONG; a client that arrives is given back, with the
connection free of both, or without it when the agent turns out dead. One order loses it: a
delivery after the last look into the slot and before the slot is dropped. -/
namespace CadsTunnel.Edge
open Words Program

def tcpPingMagic : UInt8 := 0xF9
def tcpPongMagic : UInt8 := 0xFA
def tcpPingStop : UInt8 := 0xFB

def pingFrame (counter : UInt64) : Bytes := tcpPingMagic :: u64BE counter

/- The slot and the two directions of the agent's connection. Below the line is what the statements speak of and no code
reads: the client that a delivery put into the slot, the PINGs written and the PONGs read, what the agent has sent since it
read the STOP, and what the client was relayed. -/
structure Link (Client : Type) where
  slot : Oneshot Client := {}
  outbound : Bytes := []
  inbound : Bytes := []
  stopped : Bool := false
  delivered : Option Client := none
  pings : Nat := 0
  pongs : Nat := 0
  sent : Bytes := []
  relayed : Bytes := []

/- What happens outside the task: a delivery, the drop of the sender, and an agent that answers each PING with one PONG and
sends nothing else before it has read the STOP. -/
inductive Outside (Client : Type) where
  | deliver (client : Client)
  | dropSender
  | agentReads (echo : Vector UInt8 8)
  | agentSends (bytes : Bytes)

def Link.agentReads {Client : Type} (l : Link Client) (echo : Vector UInt8 8) : Link Client :=
  match l.outbound with
  | [] => l
  | magic :: rest =>
    if l.stopped then l
    else if magic = tcpPingStop then { l with outbound := rest, stopped := true }
    else if magic = tcpPingMagic ∧ 8 ≤ rest.length then
      { l with outbound := rest.drop 8, inbound := l.inbound ++ tcpPongMagic :: echo.toList }
    else l

def Link.outside {Client : Type} (l : Link Client) : Outside Client → Link Client
  | .deliver client =>
    let (ok,slot) := l.slot.send client
    { l with slot := slot, delivered := if ok then some client else l.delivered }
  | .dropSender => { l with slot := l.slot.dropSender }
  | .agentReads echo => l.agentReads echo
  | .agentSends bytes => if l.stopped then { l with inbound := l.inbound ++ bytes, sent := l.sent ++ bytes } else l

/- `select` polls the slot and then the timer. -/
inductive ParkCall where
  | select
  | writePing (counter : UInt64)
  | flush
  | readPong
  | tryRecv

section Model
variable (Client : Type)

/- A pending answer of `select` is the timer's. -/
def ParkCall.Reply : ParkCall → Type
  | .select | .tryRecv => Polled Client
  | .writePing _ | .flush => Except Failure Unit
  | .readPong => Except Failure Bytes

variable {Client}

structure ParkWorld where
  transport : Except Failure Unit := .ok ()
  timer : Bool := true
  copies : Nat := 0

/- A call that has to wait: for a client or the timer, or for the rest of the reply. -/
def ParkCall.blocked (c : ParkCall) (l : Link Client) (world : ParkWorld) : Bool :=
  match c with
  | .select =>
    match l.slot.poll.1 with
    | .pending => !world.timer
    | _ => false
  | .readPong => world.transport.toBool && l.inbound.length < 9
  | _ => false

def ParkCall.perform (l : Link Client) (c : ParkCall) (world : ParkWorld) : c.Reply Client × Link Client :=
  match c with
  | .select =>
    let (polled,slot) := l.slot.poll
    (polled,{ l with slot := slot })
  | .tryRecv =>
    let (polled,slot) := l.slot.tryRecv
    (polled,{ l with slot := slot })
  | .writePing counter =>
    match world.transport with
    | .ok () => (.ok (),{ l with outbound := l.outbound ++ pingFrame counter, pings := l.pings + 1 })
    | .error why => (.error why,l)
  | .flush => (world.transport,l)
  | .readPong =>
    match world.transport with
    | .ok () => (.ok (l.inbound.take 9),{ l with inbound := l.inbound.drop 9, pongs := l.pongs + 1 })
    | .error why => (.error why,l)

def sendPingAndAwaitPong (counter : UInt64) : Fallible ParkCall (ParkCall.Reply Client) ServeError Unit := do
  within "PING/PONG round trip timed out" (← query (ParkCall.writePing counter))
  within "PING/PONG round trip timed out" (← query ParkCall.flush)
  let reply ← within "PING/PONG round trip timed out" (← query ParkCall.readPong)
  if List.head? reply = some tcpPongMagic then pure () else throw (.message "malformed PONG (bad magic byte)")

inductive ParkAndPingError (Client : Type) where
  | noClient (source : ServeError)
  | agentDead (client : Client) (source : ServeError)
  deriving DecidableEq, Repr

/- One round of the loop: it goes on, or the function returns. -/
inductive Round (Client : Type) where
  | again (counter : UInt64)
  | back (result : Except (ParkAndPingError Client) Client)
  | panicked

def superseded : ServeError := .message "tcp-fallback: parked registration superseded/dropped before a Client arrived"

def parkAndPing (counter : UInt64) : Program ParkCall (ParkCall.Reply Client) (Round Client) := do
  match (← ask ParkCall.select : Polled Client) with
  | .panicked => pure .panicked
  | .closed => pure (.back (.error (.noClient superseded)))
  | .received client => do
    match ← (sendPingAndAwaitPong counter).run with
    | .ok () => pure (.back (.ok client))
    | .error source => pure (.back (.error (.agentDead client source)))
  | .pending => do
    match ← (sendPingAndAwaitPong counter).run with
    | .error source => do
      match (← ask ParkCall.tryRecv : Polled Client) with
      | .received client => pure (.back (.error (.agentDead client source)))
      | _ => pure (.back (.error (.noClient source)))
    | .ok () => do
      match (← ask ParkCall.tryRecv : Polled Client) with
      | .received client => pure (.back (.ok client))
      | .pending => pure (.again (counter + 1))
      | _ => pure (.back (.error (.noClient superseded)))

/- The connection in role `'K'`: in the loop, with a result but the slot not yet dropped, with the result in the arm, after
the STOP is written, relaying, or done. -/
inductive ParkPhase (Client : Type) where
  | running (program : Program ParkCall (ParkCall.Reply Client) (Round Client))
  | panicked
  | ended (result : Except (ParkAndPingError Client) Client)
  | returned (result : Except (ParkAndPingError Client) Client)
  | stopping (client : Client)
  | relaying (client : Client)
  | over (result : Except (ParkAndPingError Client) Client)

structure ParkTask (Client : Type) where
  link : Link Client := {}
  phase : ParkPhase Client := .running (parkAndPing 0)

inductive ParkEvent (Client : Type) where
  | turn (world : ParkWorld)
  | outside (o : Outside Client)

namespace ParkTask

def settle (program : Program ParkCall (ParkCall.Reply Client) (Round Client)) : ParkPhase Client :=
  match program with
  | .done (.again counter) => .running (parkAndPing counter)
  | .done (.back result) => .ended result
  | .done .panicked => .panicked
  | .call c next => .running (.call c next)

def turn (t : ParkTask Client) (world : ParkWorld) : ParkTask Client :=
  match t.phase with
  | .running (.call c next) =>
    if c.blocked t.link world then t
    else
      let (reply,link) := c.perform t.link world
      { link := link, phase := settle (next reply) }
  | .running (.done round) => { t with phase := settle (.done round) }
  | .ended result => { link := { t.link with slot := t.link.slot.dropReceiver }, phase := .returned result }
  | .returned (.ok client) =>
    match world.transport with
    | .ok () => { link := { t.link with outbound := t.link.outbound ++ [tcpPingStop] }, phase := .stopping client }
    | .error _ => { t with phase := .over (.ok client) }
  | .returned (.error e) => { t with phase := .over (.error e) }
  | .stopping client =>
    match world.transport with
    | .ok () => { t with phase := .relaying client }
    | .error _ => { t with phase := .over (.ok client) }
  | .relaying client =>
    match world.transport with
    | .ok () => { t with link := { t.link with
        inbound := t.link.inbound.drop world.copies
        relayed := t.link.relayed ++ t.link.inbound.take world.copies } }
    | .error _ => { t with phase := .over (.ok client) }
  | .panicked | .over _ => t

def step (t : ParkTask Client) : ParkEvent Client → Unit × ParkTask Client
  | .turn world => ((),t.turn world)
  | .outside o => ((),{ t with link := t.link.outside o })

def run (events : List (ParkEvent Client)) : ParkTask Client := Machine.run step {} events

end ParkTask
end Model

section Assertions
variable {Client : Type}

/- Neither a PING nor a PONG is on the way, and the agent is still in the ping phase. -/
structure Calm (l : Link Client) : Prop where
  outbound : l.outbound = []
  inbound : l.inbound = []
  pinging : l.stopped = false
  sent : l.sent = []
  relayed : l.relayed = []
  answered : l.pings = l.pongs

/- One PING is on the way, or its PONG. -/
structure Asked (counter : UInt64) (l : Link Client) : Prop where
  frames : l.outbound = pingFrame counter ∧ l.inbound = [] ∨
    l.outbound = [] ∧ ∃ echo : Vector UInt8 8, l.inbound = tcpPongMagic :: echo.toList
  pinging : l.stopped = false
  sent : l.sent = []
  relayed : l.relayed = []
  owed : l.pings = l.pongs + 1

/- The client was delivered and taken out of the slot. -/
def Holding (client : Client) (slot : Oneshot Client) (delivered : Option Client) : Prop :=
  delivered = some client ∧ slot.sender = false

theorem calmOutside {l : Link Client} (calm : Calm l) (o : Outside Client) : Calm (l.outside o) := by
  obtain ⟨outbound,inbound,pinging,sent,relayed,answered⟩ := calm
  cases o with
  | deliver client => exact ⟨outbound,inbound,pinging,sent,relayed,answered⟩
  | dropSender => exact ⟨outbound,inbound,pinging,sent,relayed,answered⟩
  | agentReads echo =>
    simp only [Link.outside, Link.agentReads, outbound]
    exact ⟨outbound,inbound,pinging,sent,relayed,answered⟩
  | agentSends bytes =>
    simp only [Link.outside, pinging, Bool.false_eq_true, if_false]
    exact ⟨outbound,inbound,pinging,sent,relayed,answered⟩

theorem agentAnswers {counter : UInt64} {l : Link Client} (outbound : l.outbound = pingFrame counter) (pinging : l.stopped = false)
    (echo : Vector UInt8 8) :
    l.agentReads echo = { l with outbound := [], inbound := l.inbound ++ tcpPongMagic :: echo.toList } := by
  have length : (u64BE counter).length = 8 := by simp [u64BE, be, leLength]
  have rest : (u64BE counter).drop 8 = [] := by rw [← length, List.drop_length]
  simp only [Link.agentReads, outbound, pingFrame, pinging, rest, length]
  simp [tcpPingMagic, tcpPingStop]

theorem askedOutside {counter : UInt64} {l : Link Client} (asked : Asked counter l) (o : Outside Client) :
    Asked counter (l.outside o) := by
  obtain ⟨frames,pinging,sent,relayed,owed⟩ := asked
  cases o with
  | deliver client => exact ⟨frames,pinging,sent,relayed,owed⟩
  | dropSender => exact ⟨frames,pinging,sent,relayed,owed⟩
  | agentReads echo =>
    obtain ⟨outbound,inbound⟩ | ⟨outbound,inbound⟩ := frames
    · rw [Link.outside, agentAnswers outbound pinging, inbound]
      exact ⟨.inr ⟨rfl,echo,rfl⟩,pinging,sent,relayed,owed⟩
    · simp only [Link.outside, Link.agentReads, outbound]
      exact ⟨.inr ⟨outbound,inbound⟩,pinging,sent,relayed,owed⟩
  | agentSends bytes =>
    simp only [Link.outside, pinging, Bool.false_eq_true, if_false]
    exact ⟨frames,pinging,sent,relayed,owed⟩

theorem agentKeeps {P : Oneshot Client → Option Client → Prop} {l : Link Client} (holds : P l.slot l.delivered)
    (echo : Vector UInt8 8) : P (l.agentReads echo).slot (l.agentReads echo).delivered := by
  unfold Link.agentReads
  split
  · exact holds
  · split
    · exact holds
    · split
      · exact holds
      · split <;> exact holds

theorem loadedOutside {l : Link Client} (loaded : Oneshot.Loaded l.delivered l.slot) (o : Outside Client) :
    Oneshot.Loaded (l.outside o).delivered (l.outside o).slot := by
  cases o with
  | deliver client => exact Oneshot.loadedSend loaded client
  | dropSender => exact Oneshot.loadedDrop loaded
  | agentReads echo => exact agentKeeps (P := fun slot delivered => Oneshot.Loaded delivered slot) loaded echo
  | agentSends bytes =>
    simp only [Link.outside]
    split <;> exact loaded

theorem holdingOutside {client : Client} {l : Link Client} (holding : Holding client l.slot l.delivered) (o : Outside Client) :
    Holding client (l.outside o).slot (l.outside o).delivered := by
  cases o with
  | deliver other =>
    simp only [Link.outside, Oneshot.sendSpent holding.2, Bool.false_eq_true, if_false]
    exact holding
  | dropSender => exact ⟨holding.1,rfl⟩
  | agentReads echo => exact agentKeeps (P := Holding client) holding echo
  | agentSends bytes =>
    simp only [Link.outside]
    split <;> exact holding

/- Any number of steps outside the task. -/
def Meanwhile : Link Client → Link Client → Prop := Relation.ReflTransGen (fun l m => ∃ o, m = l.outside o)

theorem meanwhileKeeps (P : Link Client → Prop) (each : ∀ l o, P l → P (l.outside o)) {l m : Link Client} (moved : Meanwhile l m)
    (holds : P l) : P m := by
  induction moved with
  | refl => exact holds
  | tail _ last ih =>
    obtain ⟨o,rfl⟩ := last
    exact each _ o ih

abbrev Gives {α : Type} (post : α → Link Client → Prop) (p : Program ParkCall (ParkCall.Reply Client) α) (l : Link Client) : Prop :=
  Holds ParkCall.perform Meanwhile (fun l c world => c.blocked l world = false) post p l

theorem givesWithin {α β : Type} {late : String} {r : Except Failure α}
    {f : α → Fallible ParkCall (ParkCall.Reply Client) ServeError β} {post : Except ServeError β → Link Client → Prop} {l : Link Client}
    (goes : ∀ a, r = .ok a → Gives post (f a).run l) (fails : ∀ e, post (.error e) l) : Gives post (within late r >>= f).run l := by
  rcases r with (_ | _) | a
  · exact fails _
  · exact fails _
  · exact goes a rfl

theorem calmSlot {l : Link Client} (calm : Calm l) (slot : Oneshot Client) : Calm { l with slot := slot } :=
  ⟨calm.outbound,calm.inbound,calm.pinging,calm.sent,calm.relayed,calm.answered⟩

/- What a round trip leaves of the connection, whatever it does to the slot in the meantime. -/
def Tripped (P : Oneshot Client → Option Client → Prop) : Except ServeError Unit → Link Client → Prop
  | .ok _, l => P l.slot l.delivered ∧ Calm l
  | .error _, l => P l.slot l.delivered

variable {P : Oneshot Client → Option Client → Prop}

def SlotStable (P : Oneshot Client → Option Client → Prop) : Prop :=
  ∀ (l : Link Client) o, P l.slot l.delivered → P (l.outside o).slot (l.outside o).delivered

theorem slotMeanwhile (stable : SlotStable P) {l m : Link Client} (moved : Meanwhile l m) (slot : P l.slot l.delivered) :
    P m.slot m.delivered := meanwhileKeeps (fun l => P l.slot l.delivered) stable moved slot

theorem calmMeanwhile {l m : Link Client} (moved : Meanwhile l m) (calm : Calm l) : Calm m :=
  meanwhileKeeps Calm (fun _ o calm => calmOutside calm o) moved calm

theorem askedMeanwhile {counter : UInt64} {l m : Link Client} (moved : Meanwhile l m) (asked : Asked counter l) : Asked counter m :=
  meanwhileKeeps (Asked counter) (fun _ o asked => askedOutside asked o) moved asked

/- A reply that has arrived is the PONG, and nothing is left behind it. -/
theorem pongArrived {counter : UInt64} {l : Link Client} (asked : Asked counter l) (enough : ¬l.inbound.length < 9) :
    (l.inbound.take 9).head? = some tcpPongMagic ∧ Calm { l with inbound := l.inbound.drop 9, pongs := l.pongs + 1 } := by
  obtain ⟨frames,pinging,sent,relayed,owed⟩ := asked
  obtain ⟨_,none'⟩ | ⟨outbound,echo,inbound⟩ := frames
  · exact absurd (by simp [none']) enough
  · have length : (tcpPongMagic :: echo.toList).length = 9 := by simp
    refine ⟨by simp [inbound],⟨outbound,?_,pinging,sent,relayed,owed⟩⟩
    rw [inbound, ← length, List.drop_length]

theorem readGives (stable : SlotStable P) {counter : UInt64} {l : Link Client} (slot : P l.slot l.delivered) (asked : Asked counter l) :
    Gives (Tripped P) (do
      let reply ← within "PING/PONG round trip timed out" (← query ParkCall.readPong)
      if List.head? reply = some tcpPongMagic then pure () else throw (ServeError.message "malformed PONG (bad magic byte)")).run l := by
  refine holdsQuery (fun m world moved unblocked => ?_)
  replace slot := slotMeanwhile stable moved slot
  replace asked := askedMeanwhile moved asked
  cases read : world.transport with
  | error why =>
    simp only [ParkCall.perform, read]
    exact givesWithin nofun (fun _ => slot)
  | ok =>
    have enough : ¬m.inbound.length < 9 := by simpa [ParkCall.blocked, read, Except.toBool] using unblocked
    obtain ⟨pong,calm⟩ := pongArrived asked enough
    simp only [ParkCall.perform, read]
    refine givesWithin ?_ (fun _ => slot)
    intro reply same
    cases same
    rw [if_pos pong]
    exact ⟨slot,calm⟩

theorem tripGives (stable : SlotStable P) {counter : UInt64} {l : Link Client} (slot : P l.slot l.delivered) (calm : Calm l) :
    Gives (Tripped P) (sendPingAndAwaitPong counter).run l := by
  refine holdsQuery (fun m world moved _ => ?_)
  replace slot := slotMeanwhile stable moved slot
  replace calm := calmMeanwhile moved calm
  cases written : world.transport with
  | error why =>
    simp only [ParkCall.perform, written]
    exact givesWithin nofun (fun _ => slot)
  | ok =>
    have asked : Asked counter { m with outbound := m.outbound ++ pingFrame counter, pings := m.pings + 1 } :=
      ⟨.inl ⟨by rw [calm.outbound]; rfl,calm.inbound⟩,calm.pinging,calm.sent,calm.relayed,congrArg (· + 1) calm.answered⟩
    simp only [ParkCall.perform, written]
    refine givesWithin (fun _ _ => ?_) (fun _ => slot)
    refine holdsQuery (fun n flushed moved _ => ?_)
    have slotNow : P n.slot n.delivered := slotMeanwhile stable moved slot
    refine givesWithin (fun _ _ => ?_) (fun _ => slotNow)
    exact readGives stable slotNow (askedMeanwhile moved asked)

/- Between two rounds: what was delivered is in the slot, and the connection is calm. -/
structure Idle (l : Link Client) : Prop where
  loaded : Oneshot.Loaded l.delivered l.slot
  calm : Calm l

def Rounded : Round Client → Link Client → Prop
  | .again _, l => Idle l ∧ l.delivered = none
  | .back (.ok client), l => Holding client l.slot l.delivered ∧ Calm l
  | .back (.error (.agentDead client _)), l => Holding client l.slot l.delivered
  | .back (.error (.noClient _)), l => l.delivered = none
  | .panicked, _ => False

theorem idleMeanwhile {l m : Link Client} (moved : Meanwhile l m) (idle : Idle l) : Idle m :=
  meanwhileKeeps Idle (fun _ o idle => ⟨loadedOutside idle.loaded o,calmOutside idle.calm o⟩) moved idle

/- The client was there before the round: a last round trip decides. -/
theorem verifyGives {counter : UInt64} {client : Client} {l : Link Client} (holding : Holding client l.slot l.delivered)
    (calm : Calm l) :
    Gives Rounded (do
      match ← (sendPingAndAwaitPong counter).run with
      | .ok () => pure (.back (.ok client))
      | .error source => pure (.back (.error (.agentDead client source)))) l := by
  refine holdsBind (holdsMono ?_ (tripGives (fun _ o held => holdingOutside held o) holding calm))
  rintro (source | _) m tripped
  · exact tripped
  · exact tripped

/- The client came during a round trip, if it came: one look into the slot decides. -/
theorem cadenceGives {counter : UInt64} {l : Link Client} (idle : Idle l) :
    Gives Rounded (do
      match ← (sendPingAndAwaitPong counter).run with
      | .error source => do
        match (← ask ParkCall.tryRecv : Polled Client) with
        | .received client => pure (.back (.error (.agentDead client source)))
        | _ => pure (.back (.error (.noClient source)))
      | .ok () => do
        match (← ask ParkCall.tryRecv : Polled Client) with
        | .received client => pure (.back (.ok client))
        | .pending => pure (.again (counter + 1))
        | _ => pure (.back (.error (.noClient superseded)))) l := by
  have stable : SlotStable (fun (slot : Oneshot Client) delivered => Oneshot.Loaded delivered slot) :=
    fun _ o loaded => loadedOutside loaded o
  refine holdsBind (holdsMono ?_ (tripGives stable idle.loaded idle.calm))
  rintro (source | _) m tripped
  · intro n world moved _
    have loaded : Oneshot.Loaded n.delivered n.slot := slotMeanwhile stable moved tripped
    have seen := Oneshot.lookLoaded loaded
    rw [← Oneshot.tryRecvWaiting loaded.waiting] at seen
    simp only [ParkCall.perform]
    generalize n.slot.tryRecv = look at seen ⊢
    obtain ⟨polled,slot⟩ := look
    cases polled with
    | received client => exact seen
    | pending => exact seen.1
    | closed => exact seen.1
    | panicked => exact absurd seen id
  · intro n world moved _
    have loaded : Oneshot.Loaded n.delivered n.slot := slotMeanwhile stable moved tripped.1
    have calm := calmMeanwhile moved tripped.2
    have seen := Oneshot.lookLoaded loaded
    rw [← Oneshot.tryRecvWaiting loaded.waiting] at seen
    simp only [ParkCall.perform]
    generalize n.slot.tryRecv = look at seen ⊢
    obtain ⟨polled,slot⟩ := look
    cases polled with
    | received client => exact ⟨seen,calmSlot calm slot⟩
    | pending =>
      obtain ⟨nobody,rfl⟩ := seen
      exact ⟨⟨loaded,calm⟩,nobody⟩
    | closed => exact seen.1
    | panicked => exact absurd seen id

theorem roundGives {counter : UInt64} {l : Link Client} (idle : Idle l) : Gives Rounded (parkAndPing counter) l := by
  intro m world moved unblocked
  replace idle := idleMeanwhile moved idle
  have seen := Oneshot.lookLoaded idle.loaded
  rw [← Oneshot.pollWaiting idle.loaded.waiting] at seen
  simp only [ParkCall.perform]
  generalize m.slot.poll = look at seen ⊢
  obtain ⟨polled,slot⟩ := look
  cases polled with
  | received client => exact verifyGives seen (calmSlot idle.calm slot)
  | pending =>
    obtain ⟨_,rfl⟩ := seen
    exact cadenceGives idle
  | closed => exact seen.1
  | panicked => exact absurd seen id

theorem endsWithin {α β : Type} {late : String} {r : Except Failure α}
    {f : α → Fallible ParkCall (ParkCall.Reply Client) ServeError β} {n : Nat} (next : ∀ a, Ends (f a).run n) :
    Ends (within late r >>= f).run n := by
  rcases r with (_ | _) | a
  · trivial
  · trivial
  · exact next a

theorem tripEnds (counter : UInt64) :
    Ends (sendPingAndAwaitPong counter : Fallible ParkCall (ParkCall.Reply Client) ServeError Unit).run 3 := by
  refine endsQuery (fun written => endsWithin (fun _ => ?_))
  refine endsQuery (fun flushed => endsWithin (fun _ => ?_))
  refine endsQuery (fun read => endsWithin (fun reply => ?_))
  split
  · trivial
  · trivial

theorem parkEnds (counter : UInt64) : Ends (parkAndPing counter : Program ParkCall (ParkCall.Reply Client) (Round Client)) 5 := by
  refine endsBind (m := 1) (n := 4) (endsAsk _) ?_
  rintro (_ | client | _ | _)
  · refine endsBind (m := 3) (n := 1) (tripEnds counter) ?_
    rintro (source | _)
    · refine endsBind (m := 1) (n := 0) (endsAsk _) ?_
      rintro (_ | client | _ | _)
      all_goals trivial
    · refine endsBind (m := 1) (n := 0) (endsAsk _) ?_
      rintro (_ | client | _ | _)
      all_goals trivial
  · refine endsBind (m := 3) (n := 1) (tripEnds counter) ?_
    rintro (source | _)
    · trivial
    · trivial
  · trivial
  · trivial

/- Where the client of a result is. -/
def givenBack : Except (ParkAndPingError Client) Client → Option Client
  | .ok client => some client
  | .error (.agentDead client _) => some client
  | .error (.noClient _) => none

def ParkPhase.result : ParkPhase Client → Option (Except (ParkAndPingError Client) Client)
  | .returned result | .over result => some result
  | .stopping client | .relaying client => some (.ok client)
  | _ => none

def ParkPhase.isPanicked : ParkPhase Client → Bool
  | .panicked => true
  | _ => false

/- The receiver is gone, so whatever was delivered before is all that ever will be. -/
def Given (client : Option Client) (slot : Oneshot Client) (delivered : Option Client) : Prop :=
  delivered = client ∧ slot.receiver = .dropped

/- Every byte the agent sent after the STOP was relayed or is on the way, and no other. -/
structure Handed (l : Link Client) : Prop where
  answered : l.pings = l.pongs
  bytes : l.relayed ++ l.inbound = l.sent
  stop : l.stopped = false → ∀ magic ∈ l.outbound, magic = tcpPingStop

def Kept : ParkPhase Client → Link Client → Prop
  | .running (.call c next), l => Gives Rounded (.call c next) l ∧ Ends (.call c next) 5
  | .running (.done _), _ | .panicked, _ => False
  | .ended result, l => Rounded (.back result) l
  | .returned (.ok client), l => Given (some client) l.slot l.delivered ∧ Calm l
  | .stopping client, l | .relaying client, l | .over (.ok client), l => Given (some client) l.slot l.delivered ∧ Handed l
  | .returned (.error e), l | .over (.error e), l => Given (givenBack (.error e)) l.slot l.delivered

theorem givenOutside {client : Option Client} {l : Link Client} (given : Given client l.slot l.delivered) (o : Outside Client) :
    Given client (l.outside o).slot (l.outside o).delivered := by
  cases o with
  | deliver other =>
    obtain ⟨refused,gone⟩ := Oneshot.sendDropped given.2 other
    simp only [Link.outside, refused, Bool.false_eq_true, if_false]
    exact ⟨given.1,gone⟩
  | dropSender => exact given
  | agentReads echo => exact agentKeeps (P := Given client) given echo
  | agentSends bytes =>
    simp only [Link.outside]
    split <;> exact given

theorem handedOutside {l : Link Client} (handed : Handed l) (o : Outside Client) : Handed (l.outside o) := by
  obtain ⟨answered,bytes,stop⟩ := handed
  cases o with
  | deliver client => exact ⟨answered,bytes,stop⟩
  | dropSender => exact ⟨answered,bytes,stop⟩
  | agentReads echo =>
    cases stopped : l.stopped with
    | true =>
      have still : l.agentReads echo = l := by
        unfold Link.agentReads
        split
        · rfl
        · rw [if_pos stopped]
      rw [Link.outside, still]
      exact ⟨answered,bytes,stop⟩
    | false =>
      cases outbound : l.outbound with
      | nil =>
        simp only [Link.outside, Link.agentReads, outbound]
        exact ⟨answered,bytes,stop⟩
      | cons magic rest =>
        have first : magic = tcpPingStop := stop stopped magic (by simp [outbound])
        simp only [Link.outside, Link.agentReads, outbound, stopped, first]
        exact ⟨answered,bytes,fun pinging => by cases pinging⟩
  | agentSends sent =>
    simp only [Link.outside]
    split
    case isTrue stopped => exact ⟨answered,by rw [← List.append_assoc, bytes],fun pinging => by cases stopped.symm.trans pinging⟩
    case isFalse => exact ⟨answered,bytes,stop⟩

theorem calmHanded {l : Link Client} (calm : Calm l) : Handed l :=
  ⟨calm.answered,by rw [calm.relayed, calm.inbound, calm.sent]; rfl,fun _ => by simp [calm.outbound]⟩

namespace ParkTask

/- A client arrives at a task that has looked into its slot for the last time and found nobody. -/
def late (t : ParkTask Client) : ParkEvent Client → Bool
  | .outside (.deliver _) =>
    match t.phase with
    | .ended (.error (.noClient _)) => t.link.slot.sender
    | _ => false
  | _ => false

def timely (t : ParkTask Client) (event : ParkEvent Client) : Prop := late t event = false

instance (t : ParkTask Client) (event : ParkEvent Client) : Decidable (timely t event) := inferInstanceAs (Decidable (_ = false))

theorem keptSettle {p : Program ParkCall (ParkCall.Reply Client) (Round Client)} {l : Link Client} (gives : Gives Rounded p l)
    (ends : Ends p 5) : Kept (settle p) l := by
  match p with
  | .done (.again counter) => exact ⟨roundGives gives.1,parkEnds counter⟩
  | .done (.back result) => exact gives
  | .done .panicked => exact gives
  | .call c next => exact ⟨gives,ends⟩

theorem keptTurn {t : ParkTask Client} (kept : Kept t.phase t.link) (world : ParkWorld) :
    Kept (t.turn world).phase (t.turn world).link := by
  obtain ⟨l,phase⟩ := t
  match phase with
  | .running (.call c next) =>
    simp only [turn]
    split
    case isTrue => exact kept
    case isFalse unblocked =>
      obtain ⟨gives,k,total,ends⟩ := kept
      exact keptSettle (gives l world .refl (by simpa using unblocked)) (endsMono (ends _) (by omega))
  | .running (.done round) => exact absurd kept id
  | .panicked => exact absurd kept id
  | .ended (.ok client) => exact ⟨⟨kept.1.1,rfl⟩,calmSlot kept.2 _⟩
  | .ended (.error (.agentDead client source)) => exact ⟨kept.1,rfl⟩
  | .ended (.error (.noClient source)) => exact ⟨kept,rfl⟩
  | .returned (.ok client) =>
    obtain ⟨given,calm⟩ := kept
    cases written : world.transport with
    | error why =>
      simp only [turn, written]
      exact ⟨given,calmHanded calm⟩
    | ok =>
      simp only [turn, written]
      obtain ⟨answered,bytes,_⟩ := calmHanded calm
      have emptied : l.outbound = [] := calm.outbound
      exact ⟨given,answered,bytes,fun _ => by simp [emptied]⟩
  | .returned (.error e) => exact kept
  | .stopping client =>
    simp only [turn]
    split <;> exact kept
  | .relaying client =>
    simp only [turn]
    split
    case h_1 =>
      obtain ⟨given,answered,bytes,stop⟩ := kept
      refine ⟨given,answered,?_,stop⟩
      rw [List.append_assoc, List.take_append_drop, bytes]
    case h_2 => exact kept
  | .over result => exact kept

theorem keptOutside {t : ParkTask Client} {o : Outside Client} (met : timely t (.outside o)) (kept : Kept t.phase t.link) :
    Kept t.phase (t.link.outside o) := by
  obtain ⟨l,phase⟩ := t
  match phase with
  | .running (.call c next) =>
    exact ⟨fun m world later unblocked => kept.1 m world (.head ⟨o,rfl⟩ later) unblocked,kept.2⟩
  | .running (.done round) => exact absurd kept id
  | .panicked => exact absurd kept id
  | .ended (.ok client) => exact ⟨holdingOutside kept.1 o,calmOutside kept.2 o⟩
  | .ended (.error (.agentDead client source)) => exact holdingOutside (show Holding client l.slot l.delivered from kept) o
  | .ended (.error (.noClient source)) =>
    cases o with
    | deliver client =>
      have spent : l.slot.sender = false := met
      simp only [Link.outside, Oneshot.sendSpent spent, Bool.false_eq_true, if_false]
      exact kept
    | dropSender => exact kept
    | agentReads echo => exact agentKeeps (P := fun _ delivered => delivered = none) kept echo
    | agentSends bytes =>
      simp only [Link.outside]
      split <;> exact kept
  | .returned (.ok client) => exact ⟨givenOutside kept.1 o,calmOutside kept.2 o⟩
  | .returned (.error e) => exact givenOutside kept o
  | .stopping client => exact ⟨givenOutside kept.1 o,handedOutside kept.2 o⟩
  | .relaying client => exact ⟨givenOutside kept.1 o,handedOutside kept.2 o⟩
  | .over (.ok client) => exact ⟨givenOutside kept.1 o,handedOutside kept.2 o⟩
  | .over (.error e) => exact givenOutside kept o

theorem keptStep {t : ParkTask Client} {event : ParkEvent Client} (met : timely t event) (kept : Kept t.phase t.link) :
    Kept (step t event).2.phase (step t event).2.link := by
  cases event with
  | turn world => exact keptTurn kept world
  | outside o => exact keptOutside met kept

theorem keptRun {t : ParkTask Client} {events : List (ParkEvent Client)} (met : Machine.along step timely t events)
    (kept : Kept t.phase t.link) : Kept (Machine.run step t events).phase (Machine.run step t events).link :=
  Machine.runAlong (fun t : ParkTask Client => Kept t.phase t.link) (fun _ _ met kept => keptStep met kept) kept met

theorem keptStart : Kept ({} : ParkTask Client).phase ({} : ParkTask Client).link := by
  have idle : Idle ({} : Link Client) := ⟨Oneshot.loadedNew,⟨rfl,rfl,rfl,rfl,rfl,rfl⟩⟩
  exact ⟨roundGives idle,parkEnds 0⟩

/- The turns in which the task does not wait. -/
def advances (t : ParkTask Client) : ParkEvent Client → List Unit
  | .turn world =>
    match t.phase with
    | .running (.call c _) => if c.blocked t.link world then [] else [()]
    | _ => [()]
  | .outside _ => []

/- With a client delivered, the turns that are left until it is given back. -/
def Due (n : Nat) (t : ParkTask Client) : Prop :=
  match t.phase with
  | .running p => t.link.delivered ≠ none ∧ ∃ k < n, Ends p k
  | .ended _ => 0 < n
  | _ => True

theorem dueSettle {p : Program ParkCall (ParkCall.Reply Client) (Round Client)} {l : Link Client} {k n : Nat}
    (gives : Gives Rounded p l) (ends : Ends p k) (less : k < n) (someone : l.delivered ≠ none) :
    Due n { link := l, phase := settle p } := by
  match p with
  | .done (.again counter) => exact absurd gives.2 someone
  | .done (.back result) => exact Nat.zero_lt_of_lt less
  | .done .panicked => exact absurd gives id
  | .call c next => exact ⟨someone,k,less,ends⟩

theorem performDelivered (l : Link Client) (c : ParkCall) (world : ParkWorld) : (c.perform l world).2.delivered = l.delivered := by
  cases c with
  | select => rfl
  | tryRecv => rfl
  | flush => rfl
  | writePing counter =>
    simp only [ParkCall.perform]
    split <;> rfl
  | readPong =>
    simp only [ParkCall.perform]
    split <;> rfl

theorem outsideDelivered {l : Link Client} (someone : l.delivered ≠ none) (o : Outside Client) : (l.outside o).delivered ≠ none := by
  cases o with
  | deliver client =>
    simp only [Link.outside]
    split
    · exact nofun
    · exact someone
  | dropSender => exact someone
  | agentReads echo => exact agentKeeps (P := fun _ delivered => delivered ≠ none) someone echo
  | agentSends bytes =>
    simp only [Link.outside]
    split <;> exact someone

theorem dueStep {t : ParkTask Client} {event : ParkEvent Client} {n : Nat} (kept : Kept t.phase t.link) (due : Due n t) :
    Due (n - (advances t event).length) (step t event).2 := by
  obtain ⟨l,phase⟩ := t
  cases event with
  | outside o =>
    match phase with
    | .running p => exact ⟨outsideDelivered due.1 o,due.2⟩
    | .ended result => exact due
    | .panicked | .returned _ | .stopping _ | .relaying _ | .over _ => trivial
  | turn world =>
    match phase with
    | .running (.call c next) =>
      simp only [step, turn, advances]
      split
      case isTrue => exact due
      case isFalse unblocked =>
        obtain ⟨someone,k,less,m,rfl,ends⟩ := due
        refine dueSettle (kept.1 l world .refl (by simpa using unblocked)) (ends _) (by simp only [List.length_singleton]; omega) ?_
        rw [performDelivered]
        exact someone
    | .running (.done round) => exact absurd kept id
    | .panicked => exact absurd kept id
    | .ended result => trivial
    | .returned (.error e) => trivial
    | .over result => trivial
    | .returned (.ok client) =>
      simp only [step, turn]
      split <;> trivial
    | .stopping client =>
      simp only [step, turn]
      split <;> trivial
    | .relaying client =>
      simp only [step, turn]
      split <;> trivial

theorem dueRun {t : ParkTask Client} {events : List (ParkEvent Client)} (met : Machine.along step timely t events)
    (kept : Kept t.phase t.link) {n : Nat} (due : Due n t) :
    Due (n - (Machine.log step advances t events).length) (Machine.run step t events) := by
  induction events generalizing t n with
  | nil => exact due
  | cons event rest ih =>
    rw [Machine.log, List.length_append, ← Nat.sub_sub]
    exact ih met.2 (keptStep met.1 kept) (dueStep kept due)

theorem resultStep {t : ParkTask Client} {result : Except (ParkAndPingError Client) Client} (event : ParkEvent Client)
    (given : t.phase.result = some result) : (step t event).2.phase.result = some result := by
  obtain ⟨l,phase⟩ := t
  cases event with
  | outside o => exact given
  | turn world =>
    match phase with
    | .returned (.ok client) =>
      simp only [step, turn]
      split <;> exact given
    | .stopping client =>
      simp only [step, turn]
      split <;> exact given
    | .relaying client =>
      simp only [step, turn]
      split <;> exact given
    | .returned (.error e) => exact given
    | .over result => exact given

theorem keptGiven {phase : ParkPhase Client} {l : Link Client} (kept : Kept phase l)
    {result : Except (ParkAndPingError Client) Client} (given : phase.result = some result) : l.delivered = givenBack result := by
  match phase with
  | .returned (.ok client) | .stopping client | .relaying client | .over (.ok client) =>
    cases given
    exact kept.1.1
  | .returned (.error e) | .over (.error e) =>
    cases given
    exact kept.1

theorem keptHanded {phase : ParkPhase Client} {l : Link Client} (kept : Kept phase l) {client : Client}
    (given : phase.result = some (.ok client)) : Handed l := by
  match phase with
  | .returned (.ok client) => exact calmHanded kept.2
  | .stopping client | .relaying client | .over (.ok client) => exact kept.2

theorem keptDue {t : ParkTask Client} (kept : Kept t.phase t.link) (someone : t.link.delivered ≠ none) : Due 6 t := by
  obtain ⟨l,phase⟩ := t
  match phase with
  | .running (.call c next) => exact ⟨someone,5,by omega,kept.2⟩
  | .running (.done round) => exact absurd kept id
  | .ended result => exact Nat.zero_lt_succ 5
  | .panicked | .returned _ | .stopping _ | .relaying _ | .over _ => trivial

theorem dueOver {t : ParkTask Client} (kept : Kept t.phase t.link) (due : Due 0 t) : ∃ result, t.phase.result = some result := by
  obtain ⟨l,phase⟩ := t
  match phase with
  | .running p =>
    obtain ⟨_,k,less,_⟩ := due
    exact absurd less (Nat.not_lt_zero k)
  | .ended result => exact absurd due (Nat.lt_irrefl 0)
  | .panicked => exact absurd kept id
  | .returned result | .over result => exact ⟨result,rfl⟩
  | .stopping client | .relaying client => exact ⟨.ok client,rfl⟩

/- In every state: the slot was not polled after its end; a client handed over finds no PING and no PONG on the way and is
relayed the agent's bytes since the STOP; a result carries the client that was delivered, for good; and a client that was
delivered is in a result after six turns without waiting. -/
theorem parkedHandoff {events : List (ParkEvent Client)} (met : Machine.along step timely {} events) :
    let t := run events
    t.phase.isPanicked = false ∧
    (∀ client, t.phase = .returned (.ok client) → t.link.outbound = [] ∧ t.link.inbound = []) ∧
    (∀ client, t.phase.result = some (.ok client) → t.link.pings = t.link.pongs ∧ t.link.relayed ++ t.link.inbound = t.link.sent) ∧
    (∀ result, t.phase.result = some result → t.link.delivered = givenBack result ∧
      ∀ later, (Machine.run step t later).phase.result = some result) ∧
    (t.link.delivered ≠ none → ∀ later, Machine.along step timely t later → 6 ≤ (Machine.log step advances t later).length →
      ∃ result, (Machine.run step t later).phase.result = some result) := by
  intro t
  have kept : Kept t.phase t.link := keptRun met keptStart
  refine ⟨?_,?_,?_,?_,?_⟩
  · cases phase : t.phase with
    | panicked =>
      rw [phase] at kept
      exact absurd kept id
    | _ => rfl
  · intro client returned
    rw [returned] at kept
    exact ⟨kept.2.outbound,kept.2.inbound⟩
  · intro client given
    have handed := keptHanded kept given
    exact ⟨handed.answered,handed.bytes⟩
  · intro result given
    refine ⟨keptGiven kept given,fun later => ?_⟩
    exact Machine.runInvariant (fun t : ParkTask Client => t.phase.result = some result) (fun _ event => resultStep event) given later
  · intro someone later met enough
    have due := dueRun met kept (keptDue kept someone)
    rw [Nat.sub_eq_zero_of_le enough] at due
    exact dueOver (keptRun met kept) due

def quietRound : List (ParkEvent Nat) :=
  let answer := .outside (.agentReads (.replicate 8 0))
  [.turn {},.turn {},.turn {},answer,.turn {},.turn {},.outside (.deliver 7),.turn {},.turn {},.turn {},answer,.turn {},.turn {},
    .turn {},answer,.outside (.agentSends [1,2]),.turn {},.turn { copies := 2 }]

/- One quiet round, then a client; after its round trip the agent gets the STOP and sends two bytes, which are relayed. -/
theorem quietHandoff :
    let t := run quietRound
    t.phase.result = some (.ok 7) ∧ t.link.delivered = some 7 ∧ t.link.pings = t.link.pongs ∧
    t.link.relayed ++ t.link.inbound = t.link.sent ∧ t.link.sent = [1,2] := by
  have result : (run quietRound).phase.result = some (.ok 7) := by decide +kernel
  obtain ⟨_,_,handed,given,_⟩ := parkedHandoff (show Machine.along step timely {} quietRound by decide +kernel)
  obtain ⟨answered,bytes⟩ := handed 7 result
  exact ⟨result,(given _ result).1,answered,bytes,by decide +kernel⟩

/- The cadence PING cannot be written and the slot is empty; a client is delivered before the receiver is dropped. -/
theorem lateClientLost : ¬∀ events : List (ParkEvent Nat), ∀ result,
    (run events).phase.result = some result → (run events).link.delivered = givenBack result := by
  intro never
  have given := never [.turn {},.turn { transport := .error .broken },.turn {},.outside (.deliver 7),.turn {}]
    (.error (.noClient .transport)) rfl
  exact nomatch given

end ParkTask
end Assertions
end CadsTunnel.Edge
