import CadsTunnel.Words

/-! The multiplexed pump of two members: application bytes and in-band control messages
as tagged records, over the relay until the cutover and over the direct session after
it. A side runs an outbound loop, an inbound loop and the installer that hands the
direct session to both. An event is one step of one of these, or of the driver, the
local side or the transport it waits for. -/
namespace CadsTunnel.Cutover
open Words

inductive Path where
  | relay
  | direct
  deriving DecidableEq, Repr

inductive PumpControl where
  | send (payload : Bytes)
  | cutover
  deriving DecidableEq, Repr

def pumpTagData : UInt8 := 0
def pumpTagCutover : UInt8 := 1
def pumpTagControl : UInt8 := 2
def controlInChannelBound : Nat := 32
def chunk : Nat := 16 * 1024

/- The direct session of a side: still dialled, handed to both loops, or given up, which drops
the senders of both loops. -/
inductive Installer where
  | waiting
  | installed
  | dropped
  deriving DecidableEq, Repr

/- Where the outbound loop is: at its select, at the direct session a cutover waits for, or at
the write of a sealed record, which may be the cutover marker. -/
inductive SendPhase where
  | select
  | awaiting
  | writing (marker : Bool)
  | ended
  | failed (message : String)
  deriving DecidableEq, Repr

structure Outbound where
  control : List PumpControl := []
  driverGone : Bool := false
  controlOpen : Bool := true
  dirOutRx : Bool := true
  onDirect : Bool := false
  phase : SendPhase := .select
  -- The records of each session in the order of their nonces.
  sealed : Path → List Bytes := fun _ => []
  -- What was read from the local side, and every instruction the driver queued.
  consumed : Bytes := []
  queued : List PumpControl := []

namespace Outbound

def path (o : Outbound) : Path := if o.onDirect then .direct else .relay

/- `failure` is the answer of the cipher. It refuses a record that does not fit the frame buffer. -/
def sealFrame (o : Outbound) (path : Path) (tag : UInt8) (payload : Bytes) (failure : Option String) : Option Outbound :=
  match failure with
  | some message => some { o with phase := .failed message }
  | none =>
    if 1 + payload.length + 16 ≤ 1 + chunk + 256 then
      some { o with
        sealed := Function.update o.sealed path (o.sealed path ++ [tag :: payload])
        phase := .writing (tag = pumpTagCutover) }
    else none

def takeControl (o : Outbound) (failure : Option String) : Option Outbound :=
  match o.control with
  | [] => if o.driverGone then some { o with controlOpen := false } else none
  | .cutover :: rest =>
    if o.dirOutRx then some { o with control := rest, dirOutRx := false, phase := .awaiting }
    else some { o with control := rest }
  | .send payload :: rest => { o with control := rest }.sealFrame o.path pumpTagControl payload failure

end Outbound

inductive SendEvent where
  | enqueue (instruction : PumpControl)
  | driverDrops
  | control (failure : Option String)
  | direct (failure : Option String)
  | readData (bytes : Bytes) (failure : Option String)
  | readEnd
  | readFailed (message : String)
  | written
  | writeFailed (message : String)
  deriving DecidableEq, Repr

/- The select polls the control branch first, yet a cooperative yield may leave an instruction
unseen, so the read branch does not wait for an empty queue. -/
def Outbound.step (installer : Installer) (o : Outbound) : SendEvent → Option Outbound
  | .enqueue instruction =>
    if o.driverGone then none
    else some { o with control := o.control ++ [instruction], queued := o.queued ++ [instruction] }
  | .driverDrops => some { o with driverGone := true }
  | .control failure => if o.phase = .select ∧ o.controlOpen then o.takeControl failure else none
  | .direct failure =>
    if o.phase = .awaiting then
      match installer with
      | .waiting => none
      | .installed => o.sealFrame .relay pumpTagCutover [] failure
      | .dropped => some { o with phase := .select }
    else none
  | .readData bytes failure =>
    if o.phase = .select ∧ bytes ≠ [] ∧ bytes.length ≤ chunk then
      { o with consumed := o.consumed ++ bytes }.sealFrame o.path pumpTagData bytes failure
    else none
  | .readEnd => if o.phase = .select then some { o with phase := .ended } else none
  | .readFailed message => if o.phase = .select then some { o with phase := .failed message } else none
  | .written =>
    match o.phase with
    | .writing marker => some { o with phase := .select, onDirect := o.onDirect || marker }
    | _ => none
  | .writeFailed message =>
    match o.phase with
    | .writing _ => some { o with phase := .failed message }
    | _ => none

/- Where the inbound loop is: at a read, at the direct session a marker waits for, or handing the
rest of a record to the local side. -/
inductive ReadPhase where
  | reading
  | awaiting
  | delivering (rest : Bytes)
  | ended
  | failed (message : String)
  deriving DecidableEq, Repr

inductive TrySend where
  | delivered
  | full
  | closed
  deriving DecidableEq, Repr

/- What the inbound loop did with a record that is no data. -/
inductive Handled where
  | control (payload : Bytes) (outcome : TrySend)
  | cutover
  deriving DecidableEq, Repr

structure Inbound where
  dirInRx : Bool := true
  onDirect : Bool := false
  phase : ReadPhase := .reading
  -- The next nonce of each session.
  opened : Path → Nat := fun _ => 0
  controlIn : List Bytes := []
  driverClosed : Bool := false
  -- What the local side took, what the loop did with control records, and what the driver read.
  output : Bytes := []
  handled : List Handled := []
  taken : List Bytes := []

/- What the transport brings: a record the peer sealed, in whatever order, or anything else. -/
inductive Frame where
  | record (path : Path) (nonce : Nat)
  | foreign
  deriving DecidableEq, Repr

namespace Inbound

def path (i : Inbound) : Path := if i.onDirect then .direct else .relay

/- The cipher opens the record with the next nonce of the session it belongs to, and nothing else. -/
def readMessage (i : Inbound) (sealed : Path → List Bytes) : Frame → Option Bytes
  | .record path nonce => if path = i.path ∧ nonce = i.opened path then (sealed path)[nonce]? else none
  | .foreign => none

def trySend (i : Inbound) : TrySend :=
  if i.driverClosed then .closed else if i.controlIn.length < controlInChannelBound then .delivered else .full

def receiveControl (i : Inbound) (payload : Bytes) : Inbound :=
  { i with
    controlIn := if i.trySend = .delivered then i.controlIn ++ [payload] else i.controlIn
    handled := i.handled ++ [.control payload i.trySend] }

/- A marker after the first finds the receiver taken and changes nothing. -/
def receiveCutover (i : Inbound) : Inbound :=
  { i with
    dirInRx := false
    phase := if i.dirInRx then .awaiting else i.phase
    handled := i.handled ++ [.cutover] }

def receive (i : Inbound) : Bytes → Inbound
  | [] => i
  | tag :: payload =>
    if tag = pumpTagCutover then i.receiveCutover
    else if tag = pumpTagControl then i.receiveControl payload
    else { i with phase := .delivering payload }

def arrive (i : Inbound) (sealed : Path → List Bytes) (frame : Frame) (error : String) : Inbound :=
  match i.readMessage sealed frame with
  | some message => { i with opened := Function.update i.opened i.path (i.opened i.path + 1) }.receive message
  | none => { i with phase := .failed error }

def cannotHonor : String :=
  "noise pump: peer signaled CUTOVER but this side's direct dial never completed (#482) -- cannot honor the cutover"

end Inbound

inductive ReadEvent where
  | arrive (frame : Frame) (error : String)
  | broken
  | direct
  | handed (count : Nat)
  | flushed
  | outputFailed (message : String)
  | driverTakes
  | driverCloses
  deriving DecidableEq, Repr

/- Any failed read, the end of the stream or a broken transport, ends the local output in order. -/
def Inbound.step (installer : Installer) (sealed : Path → List Bytes) (i : Inbound) : ReadEvent → Option Inbound
  | .arrive frame error => if i.phase = .reading then some (i.arrive sealed frame error) else none
  | .broken => if i.phase = .reading then some { i with phase := .ended } else none
  | .direct =>
    if i.phase = .awaiting then
      match installer with
      | .waiting => none
      | .installed => some { i with phase := .reading, onDirect := true }
      | .dropped => some { i with phase := .failed cannotHonor }
    else none
  | .handed count =>
    match i.phase with
    | .delivering rest =>
      if 0 < count ∧ count ≤ rest.length then
        some { i with output := i.output ++ rest.take count, phase := .delivering (rest.drop count) }
      else none
    | _ => none
  | .flushed => if i.phase = .delivering [] then some { i with phase := .reading } else none
  | .outputFailed message =>
    match i.phase with
    | .delivering _ => some { i with phase := .failed message }
    | _ => none
  | .driverTakes =>
    match i.controlIn with
    | payload :: rest => if i.driverClosed then none else some { i with controlIn := rest, taken := i.taken ++ [payload] }
    | [] => none
  -- What the driver has not taken stays unread.
  | .driverCloses => some { i with driverClosed := true }

structure Side where
  outbound : Outbound := {}
  inbound : Inbound := {}
  installer : Installer := .waiting

inductive Event where
  | send (event : SendEvent)
  | read (event : ReadEvent)
  | install (arrived : Bool)
  deriving DecidableEq, Repr

namespace Side

def step (x peer : Side) : Event → Option Side
  | .send event => (x.outbound.step x.installer event).map fun o => { x with outbound := o }
  | .read event => (x.inbound.step x.installer peer.outbound.sealed event).map fun i => { x with inbound := i }
  | .install arrived =>
    if x.installer = .waiting then some { x with installer := if arrived then .installed else .dropped } else none

/- The pump returns when both loops and the installer have. -/
def result (x : Side) : Option (Except String Unit) :=
  match x.installer, x.outbound.phase, x.inbound.phase with
  | .waiting, _, _ => none
  | _, .ended, .ended => some (.ok ())
  | _, .ended, .failed message => some (.error message)
  | _, .failed message, .ended => some (.error message)
  | _, .failed message, .failed _ => some (.error message)
  | _, _, _ => none

end Side

inductive Party where
  | a
  | b
  deriving DecidableEq, Repr

structure Session where
  a : Side := {}
  b : Side := {}

namespace Session

def side (s : Session) : Party → Side
  | .a => s.a
  | .b => s.b

def peer (s : Session) : Party → Side
  | .a => s.b
  | .b => s.a

def step (s : Session) : Party × Event → Option Session
  | (.a,event) => (s.a.step s.b event).map fun a => { s with a := a }
  | (.b,event) => (s.b.step s.a event).map fun b => { s with b := b }

def run (s : Session) (events : List (Party × Event)) : Option Session := events.foldlM step s

end Session
end CadsTunnel.Cutover
