import CadsTunnel.DeliveryRecords

/-! The second delivery pump as two sides that exchange records. A side runs three
futures in one task: outbound owns the write half of the transport, inbound the
read half, and the watchdog bounds the wait for the confirmation. An event is one
step of one future, or of the local side, the transport or the relay it waits for;
the clock is left open, so a timer may fire whenever its branch is enabled. -/
namespace CadsTunnel.Delivery
open Words

inductive ToOutbound where
  | finAck (received : UInt64)
  | abort (reason : FinReason) (error : PumpError)
  deriving DecidableEq, Repr

/- The write the outbound future is waiting for. -/
inductive Write where
  | data (bytes : Bytes)
  | fin
  | finAck (received : UInt64)
  | progress (delivered : UInt64)
  | abort (reason : FinReason) (error : PumpError)
  deriving DecidableEq, Repr

/- Where the inbound future is: at a read, handing data or the end to the local side, or about to return an error. -/
inductive Phase where
  | reading
  | delivering (bytes : Bytes)
  | closing
  | aborting (error : PumpError)
  | leaving (error : PumpError)
  deriving DecidableEq, Repr

/- The `delivering` flag: time spent in the local side is not the peer's silence. -/
def Phase.isBusy : Phase → Bool
  | .delivering _ | .closing => true
  | _ => false

structure Side where
  finAckIdle : Nat
  sent : UInt64
  localOpen : Bool
  finSent : Bool
  finAckOut : Bool
  reported : UInt64
  pending : Option Write
  emitted : Bool
  queue : List ToOutbound
  received : UInt64
  theirFin : Bool
  confirmed : Bool
  phase : Phase
  finOut : Bool
  watchdogDone : Bool
  result : Option (Except PumpError DeliveryReport)
  -- The transport: what this side wrote, what it read of the peer's stream, and where the relay cuts that stream.
  wrote : List Record
  seen : List Record
  cut : Option Nat
  -- The local side: what was read from its input, whether the input ended, and what its output took.
  consumed : Bytes
  inputEnded : Bool
  output : Bytes

namespace Side

def start (finAckIdle : Nat) : Side where
  finAckIdle := finAckIdle
  sent := 0
  localOpen := true
  finSent := false
  finAckOut := false
  reported := 0
  pending := none
  emitted := false
  queue := []
  received := 0
  theirFin := false
  confirmed := false
  phase := .reading
  finOut := false
  watchdogDone := false
  result := none
  wrote := []
  seen := []
  cut := none
  consumed := []
  inputEnded := false
  output := []

def fail (x : Side) (error : PumpError) : Side := { x with result := some (.error error) }

def transportEnded (x : Side) (error : IoError) : PumpError :=
  .delivery .unexpectedEof (.transportEnded x.received x.theirFin x.sent x.finSent x.confirmed
    (if error.kind = .unexpectedEof then "end of stream" else error.message))

def protocol (x : Side) (what : String) : Side := x.fail (.delivery .invalidData (.protocol what))

def localEnded (x : Side) (kind : ErrorKind) (reason : FinReason) (detail : String) : PumpError :=
  .delivery kind (.localEnded reason x.sent detail)

/- Outbound. The select is biased: a command of the inbound future goes first. -/

def beginWrite (x : Side) (write : Write) : Side := { x with pending := some write, emitted := false }

def idle (x : Side) : Bool := x.pending.isNone && (x.localOpen || !x.finAckOut)

def command (x : Side) : Option Side :=
  match x.queue with
  | .finAck received :: rest => some ({ x with queue := rest }.beginWrite (.finAck received))
  | .abort reason error :: rest => some ({ x with queue := rest }.beginWrite (.abort reason error))
  | [] => none

def tick (x : Side) : Option Side :=
  if x.queue.isEmpty && !x.finAckOut then
    if x.reported < x.received then some (x.beginWrite (.progress x.received)) else some x
  else none

def chunk : Nat := 16 * 1024

def readData (x : Side) (bytes : Bytes) : Option Side :=
  if x.queue.isEmpty && x.localOpen && !bytes.isEmpty && decide (bytes.length ≤ chunk) then
    some ({ x with consumed := x.consumed ++ bytes }.beginWrite (.data bytes))
  else none

/- The reason is the caller's answer to the end of the input. -/
def readEnd (x : Side) (reason : FinReason) : Option Side :=
  if x.queue.isEmpty && x.localOpen then
    let x := { x with inputEnded := true }
    if reason ≠ .normal then
      some (x.beginWrite (.abort reason (x.localEnded reason.errorKind reason "the local side ended")))
    else some ({ x with finSent := true }.beginWrite .fin)
  else none

def readFailed (x : Side) (error : IoError) (answer : FinReason) : Option Side :=
  if x.queue.isEmpty && x.localOpen then
    let reason := answer.ofFailure
    some (x.beginWrite (.abort reason (x.localEnded error.kind reason ("reading the local side failed: " ++ error.message))))
  else none

def record (x : Side) : Write → Record
  | .data bytes => .data bytes
  | .fin => .fin x.sent .normal
  | .finAck received => .finAck received
  | .progress delivered => .progress delivered
  | .abort reason _ => .fin x.sent reason

/- The transport takes the record; the write itself returns later. -/
def emit (x : Side) : Option Side :=
  match x.pending with
  | some write => if x.emitted then none else some { x with wrote := x.wrote ++ [x.record write], emitted := true }
  | none => none

def finish (x : Side) : Write → Side
  | .data bytes => { x with pending := none, sent := x.sent + .ofNat bytes.length }
  | .fin => { x with pending := none, finOut := true, localOpen := false }
  | .finAck _ => { x with pending := none, finAckOut := true }
  | .progress delivered => { x with pending := none, reported := delivered }
  | .abort _ error => x.fail error

def written (x : Side) : Option Side :=
  match x.pending with
  | some write => if x.emitted then some (x.finish write) else none
  | none => none

/- A failed write ends the session; for an abort this also covers the end of its grace period. -/
def writeFailed (x : Side) (error : IoError) : Option Side :=
  match x.pending with
  | some (.abort _ own) => some (x.fail own)
  | some _ => some (x.fail (x.transportEnded error))
  | none => none

/- Sealing a DATA record is outside the mapped write, so its error passes as it is. -/
def sealFailed (x : Side) (error : IoError) : Option Side :=
  match x.pending with
  | some (.data _) => if x.emitted then none else some (x.fail (.io error))
  | _ => none

/- Inbound. -/

def atRead (x : Side) : Bool := decide (x.phase = .reading) && !(x.theirFin && x.confirmed)

def hexByte (b : UInt8) : String :=
  let digits := Nat.toDigits 16 b.toNat
  String.ofList (List.replicate (2 - digits.length) '0' ++ digits)

def receiveData (x : Side) (body : Bytes) : Side :=
  if x.theirFin then x.protocol "application data after the peer's FIN"
  else { x with phase := .delivering body }

def receiveFin (x : Side) (body : Bytes) : Side :=
  if body.length ≠ 9 then x.protocol ("a FIN record of " ++ toString (1 + body.length) ++ " bytes")
  else
    let announced := u64At body
    let reason := FinReason.fromByte (body.getD 8 0)
    -- The local output is closed within the grace period before the error is returned.
    if reason ≠ .normal then
      { x with phase := .leaving (.delivery .connectionAborted (.peerEnded reason announced x.received)) }
    else if x.theirFin then x.protocol "a second FIN"
    else if announced ≠ x.received then x.fail (.delivery .unexpectedEof (.truncated announced x.received))
    else { x with phase := .closing }

def receiveFinAck (x : Side) (body : Bytes) : Side :=
  if body.length ≠ 8 then x.protocol ("a FIN_ACK record of " ++ toString (1 + body.length) ++ " bytes")
  else if !x.finSent then x.protocol "a FIN_ACK before this side's FIN"
  else if x.confirmed then x.protocol "a second FIN_ACK"
  else
    let got := u64At body
    if got ≠ x.sent then x.fail (.delivery .other (.unconfirmed x.sent got))
    else { x with confirmed := true }

def receiveProgress (x : Side) (body : Bytes) : Side :=
  if body.length ≠ 8 then x.protocol ("a PROGRESS record of " ++ toString (1 + body.length) ++ " bytes") else x

def receive (x : Side) : Bytes → Side
  | [] => x.protocol "an empty record"
  | tag :: body =>
    if tag = recData then x.receiveData body
    else if tag = recFin then x.receiveFin body
    else if tag = recFinAck then x.receiveFinAck body
    else if tag = recProgress then x.receiveProgress body
    else x.protocol ("an unknown record tag 0x" ++ hexByte tag)

/- The next record of the peer's stream, unless the relay cut the stream before it. -/
def arrive (x peer : Side) : Option Side :=
  match peer.wrote[x.seen.length]? with
  | some r =>
    if x.cut.all (fun k => decide (x.seen.length < k)) then some ({ x with seen := x.seen ++ [r] }.receive r.encode) else none
  | none => none

def atCut (x peer : Side) : Bool :=
  decide (x.cut = some x.seen.length) || (peer.result.isSome && decide (x.seen.length = peer.wrote.length))

def readBroken (x peer : Side) (error : IoError) : Option Side :=
  if x.atCut peer then some (x.fail (x.transportEnded error)) else none

def delivered (x : Side) : Option Side :=
  match x.phase with
  | .delivering bytes =>
    some { x with phase := .reading, output := x.output ++ bytes, received := x.received + .ofNat bytes.length }
  | .closing => some { x with phase := .reading, theirFin := true, queue := x.queue ++ [.finAck x.received] }
  | _ => none

def abort (x : Side) (error : IoError) (answer : FinReason) : Side :=
  let reason := answer.ofFailure
  let own := x.localEnded error.kind reason ("delivering to the local side failed: " ++ error.message)
  { x with phase := .aborting own, queue := x.queue ++ [.abort reason own] }

/- A failed local write may have handed over the first `count` bytes. -/
def deliveryFailed (x : Side) (error : IoError) (answer : FinReason) (count : Nat) : Option Side :=
  match x.phase with
  | .delivering bytes => some ({ x with output := x.output ++ bytes.take count }.abort error answer)
  | .closing => some (x.abort error answer)
  | _ => none

def inboundReturns (x : Side) : Option Side :=
  match x.phase with
  | .aborting error | .leaving error => some (x.fail error)
  | _ => none

/- The watchdog and the join of the three futures. -/

def watchdogReturns (x : Side) : Option Side :=
  if x.finOut && x.confirmed then some { x with watchdogDone := true } else none

def watchdogExpires (x : Side) : Option Side :=
  if x.finOut && !x.confirmed && !x.phase.isBusy then
    some (x.fail (.delivery .timedOut (.ackTimeout x.sent x.finAckIdle)))
  else none

def outboundDone (x : Side) : Bool := x.pending.isNone && !x.localOpen && x.finAckOut

def inboundDone (x : Side) : Bool := decide (x.phase = .reading) && x.theirFin && x.confirmed

def join (x : Side) : Option Side :=
  if x.outboundDone && x.inboundDone && x.watchdogDone then some { x with result := some (.ok ⟨x.sent,x.received⟩) } else none

end Side

inductive Event where
  | command
  | tick
  | readData (bytes : Bytes)
  | readEnd (reason : FinReason)
  | readFailed (error : IoError) (answer : FinReason)
  | emit
  | written
  | writeFailed (error : IoError)
  | sealFailed (error : IoError)
  | arrive
  | readBroken (error : IoError)
  | noiseFailed (message : String)
  | delivered
  | deliveryFailed (error : IoError) (answer : FinReason) (count : Nat)
  | inboundReturns
  | watchdogReturns
  | watchdogExpires
  | join
  | cut (position : Nat)

namespace Side

/- What a side that has not returned can do; `none` when the event is not possible. -/
def act (x peer : Side) : Event → Option Side
  | .command => if x.idle then x.command else none
  | .tick => if x.idle then x.tick else none
  | .readData bytes => if x.idle then x.readData bytes else none
  | .readEnd reason => if x.idle then x.readEnd reason else none
  | .readFailed error answer => if x.idle then x.readFailed error answer else none
  | .emit => x.emit
  | .written => x.written
  | .writeFailed error => x.writeFailed error
  | .sealFailed error => x.sealFailed error
  | .arrive => if x.atRead then x.arrive peer else none
  | .readBroken error => if x.atRead then x.readBroken peer error else none
  | .noiseFailed message => if x.atRead then some (x.fail (.io ⟨.invalidData,"noise: " ++ message⟩)) else none
  | .delivered => x.delivered
  | .deliveryFailed error answer count => x.deliveryFailed error answer count
  | .inboundReturns => x.inboundReturns
  | .watchdogReturns => x.watchdogReturns
  | .watchdogExpires => x.watchdogExpires
  | .join => x.join
  | .cut _ => none

/- The relay may cut the stream behind any record it has not forwarded yet, also after the side returned. -/
def relayCut (x : Side) (position : Nat) : Option Side :=
  if x.cut = none ∧ x.seen.length ≤ position then some { x with cut := some position } else none

def step (x peer : Side) : Event → Option Side
  | .cut position => x.relayCut position
  | event => if x.result = none then x.act peer event else none

end Side

inductive Party where
  | a
  | b
  deriving DecidableEq, Repr

structure Session where
  a : Side
  b : Side

namespace Session

def start (idleA idleB : Nat) : Session := ⟨.start idleA,.start idleB⟩

def side (s : Session) : Party → Side
  | .a => s.a
  | .b => s.b

def peer (s : Session) : Party → Side
  | .a => s.b
  | .b => s.a

def step (s : Session) : Party × Event → Option Session
  | (.a,event) => (s.a.step s.b event).map fun a => { s with a := a }
  | (.b,event) => (s.b.step s.a event).map fun b => { s with b := b }

def run (s : Session) (events : List (Party × Event)) : Option Session := events.foldlM step s

end Session
end CadsTunnel.Delivery
