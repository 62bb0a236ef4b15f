import CadsTunnel.Words

/-! The records of the second delivery protocol. Every transport message carries
one record, a tag byte and a body; the reason of a FIN is one byte on the wire.
Also the errors a session ends with, each naming what is missing. -/
namespace CadsTunnel.Delivery
open Words

inductive FinReason where
  | normal
  | ownGrantExpired
  | ownGrantRevoked
  | peerGrantEnded
  | localError
  | peerGrantRefused
  | unknown (code : UInt8)
  deriving DecidableEq, Repr

inductive ErrorKind where
  | unexpectedEof
  | invalidData
  | connectionAborted
  | permissionDenied
  | timedOut
  | other
  | named (name : String)
  deriving DecidableEq, Repr

/- An error of the local side or of the transport, as the pump reads it. -/
structure IoError where
  kind : ErrorKind
  message : String
  deriving DecidableEq, Repr

namespace FinReason

def toByte : FinReason → UInt8
  | .normal => 0
  | .ownGrantExpired => 1
  | .ownGrantRevoked => 2
  | .peerGrantEnded => 3
  | .localError => 4
  | .peerGrantRefused => 5
  | .unknown b => b

def fromByte (b : UInt8) : FinReason :=
  if b = 0 then .normal
  else if b = 1 then .ownGrantExpired
  else if b = 2 then .ownGrantRevoked
  else if b = 3 then .peerGrantEnded
  else if b = 4 then .localError
  else if b = 5 then .peerGrantRefused
  else .unknown b

def errorKind : FinReason → ErrorKind
  | .ownGrantExpired | .ownGrantRevoked | .peerGrantEnded | .peerGrantRefused => .permissionDenied
  | _ => .other

/- A failed local side is reported as a local error when the caller calls it normal. -/
def ofFailure : FinReason → FinReason
  | .normal => .localError
  | reason => reason

theorem fromByteNormal {b : UInt8} : fromByte b = .normal ↔ b = 0 := by
  unfold fromByte
  constructor
  · intro same
    by_contra other
    simp only [other, if_false] at same
    repeat' split at same
    all_goals contradiction
  · intro zero
    rw [if_pos zero]

/- Every reason but the normal one and the unknown reason 0 has a byte of its own. -/
theorem failureByte {reason : FinReason} (named : reason ≠ .unknown 0) : (ofFailure reason).toByte ≠ 0 := by
  cases reason with
  | unknown code =>
    intro zero
    exact named (congrArg FinReason.unknown zero)
  | _ => decide

end FinReason

inductive DeliveryError where
  | transportEnded (received : UInt64) (peerFin : Bool) (sent : UInt64) (finSent confirmed : Bool) (cause : String)
  | truncated (announced received : UInt64)
  | unconfirmed (sent confirmed : UInt64)
  | ackTimeout (sent : UInt64) (idle : Nat)
  | peerEnded (reason : FinReason) (announced received : UInt64)
  | localEnded (reason : FinReason) (sent : UInt64) (detail : String)
  | protocol (what : String)
  deriving DecidableEq, Repr

inductive PumpError where
  | delivery (kind : ErrorKind) (error : DeliveryError)
  | io (error : IoError)
  deriving DecidableEq, Repr

structure DeliveryReport where
  sent : UInt64
  received : UInt64
  deriving DecidableEq, Repr

def recData : UInt8 := 0
def recFin : UInt8 := 1
def recFinAck : UInt8 := 2
def recProgress : UInt8 := 3

inductive Record where
  | data (bytes : Bytes)
  | fin (sent : UInt64) (reason : FinReason)
  | finAck (received : UInt64)
  | progress (delivered : UInt64)
  deriving DecidableEq, Repr

def finBody (sent : UInt64) (reason : FinReason) : Bytes := u64BE sent ++ [reason.toByte]

def u64At (bytes : Bytes) : UInt64 := .ofNat (readBE (bytes.take 8))

def Record.encode : Record → Bytes
  | .data bytes => recData :: bytes
  | .fin sent reason => recFin :: finBody sent reason
  | .finAck received => recFinAck :: u64BE received
  | .progress delivered => recProgress :: u64BE delivered

theorem finBodyLength (sent : UInt64) (reason : FinReason) : (finBody sent reason).length = 9 := by
  simp [finBody, u64BE, beLength]

theorem finBodyReason (sent : UInt64) (reason : FinReason) : (finBody sent reason).getD 8 0 = reason.toByte := by
  simp [finBody, u64BE, beLength]

/- The application bytes of a stream of records. -/
def payload (records : List Record) : Bytes :=
  records.flatMap fun
    | .data bytes => bytes
    | _ => []

theorem payloadAppend (first later : List Record) : payload (first ++ later) = payload first ++ payload later :=
  List.flatMap_append

theorem payloadData (records : List Record) (bytes : Bytes) :
    payload (records ++ [.data bytes]) = payload records ++ bytes := by
  rw [payloadAppend]
  simp [payload]

def Record.isFin : Record → Bool
  | .fin .. => true
  | _ => false

def Record.isData : Record → Bool
  | .data _ => true
  | _ => false

theorem payloadControl (records : List Record) {r : Record} (control : r.isData = false) :
    payload (records ++ [r]) = payload records := by
  rw [payloadAppend]
  cases r with
  | data bytes => contradiction
  | _ => simp [payload]

end CadsTunnel.Delivery
