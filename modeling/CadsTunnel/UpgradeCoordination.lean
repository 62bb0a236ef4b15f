import CadsTunnel.ChannelAcks
import CadsTunnel.CutoverPump

/-! The messages with which two members agree on a direct path, in a wire form of one
tag and the rest, and the bookkeeping of one member: who may attempt an upgrade, when
the next attempt is due, and when the path became direct. -/
namespace CadsTunnel.Upgrade
open Words
open Cutover (Path)

inductive Role where
  | initiator
  | responder
  deriving DecidableEq, Repr

inductive UpgradeMsg where
  | offer (directEndpoint : String)
  | ready
  | abort
  deriving DecidableEq, Repr

namespace UpgradeMsg

def tagOffer : UInt8 := 0
def tagReady : UInt8 := 1
def tagAbort : UInt8 := 2

def encode : UpgradeMsg → Bytes
  | .offer directEndpoint => tagOffer :: asBytes directEndpoint
  | .ready => [tagReady]
  | .abort => [tagAbort]

def decode : Bytes → Option UpgradeMsg
  | [] => none
  | tag :: rest =>
    if tag = tagOffer then
      if rest = [] then none else (fromUtf8 rest).map .offer
    else if tag = tagReady ∧ rest = [] then some .ready
    else if tag = tagAbort ∧ rest = [] then some .abort
    else none

/- What is read is what was written. -/
theorem decodeSome {raw : Bytes} {message : UpgradeMsg} (read : decode raw = some message) : message.encode = raw := by
  cases raw with
  | nil => contradiction
  | cons tag rest =>
    simp only [decode] at read
    split at read
    case isTrue offer =>
      split at read <;> try contradiction
      obtain ⟨endpoint,text,rfl⟩ := Option.map_eq_some_iff.mp read
      rw [encode, fromUtf8Some text, offer]
    case isFalse =>
      split at read
      case isTrue ready =>
        cases Option.some.inj read
        rw [encode, ready.1, ready.2]
      case isFalse =>
        split at read <;> try contradiction
        case isTrue abort =>
          cases Option.some.inj read
          rw [encode, abort.1, abort.2]

/- An offer must carry an endpoint. Every other message is read as it was written. -/
theorem decodeEncode {message : UpgradeMsg} (carries : message ≠ .offer "") : decode message.encode = some message := by
  cases message with
  | offer endpoint =>
    have some : asBytes endpoint ≠ [] := fun empty => carries (congrArg offer (asBytesInjective (empty.trans (by decide))))
    rw [encode, decode, if_pos rfl, if_neg some, fromUtf8Bytes, Option.map_some]
  | ready => rfl
  | abort => rfl

end UpgradeMsg

def saturatingMul (a b : UInt64) : UInt64 := if a.toNat * b.toNat < 2 ^ 64 then a * b else .ofNat (2 ^ 64 - 1)

def defaultBaseIntervalSecs : UInt64 := 5
def defaultMaxIntervalSecs : UInt64 := 60

structure UpgradeCoordinator where
  role : Role
  path : Path
  startedAt : UInt64
  upgradedAt : Option UInt64
  nextAttemptAt : UInt64
  attempts : UInt32
  baseInterval : UInt64
  maxInterval : UInt64

namespace UpgradeCoordinator

def withBackoff (role : Role) (now baseInterval maxInterval : UInt64) : UpgradeCoordinator :=
  let base := max baseInterval 1
  { role := role, path := .relay, startedAt := now, upgradedAt := none, nextAttemptAt := saturatingAdd now base,
    attempts := 0, baseInterval := base, maxInterval := max maxInterval base }

def new (role : Role) (now : UInt64) : UpgradeCoordinator := withBackoff role now defaultBaseIntervalSecs defaultMaxIntervalSecs

def shouldAttempt (c : UpgradeCoordinator) (now : UInt64) : Bool :=
  c.role = .initiator && c.path = .relay && c.nextAttemptAt ≤ now

/- The exponent is capped, so the shift stays within the word. -/
def recordAttemptFailed (c : UpgradeCoordinator) (now : UInt64) : UpgradeCoordinator :=
  let attempts := if c.attempts = .ofNat (2 ^ 32 - 1) then c.attempts else c.attempts + 1
  let backoff := min (saturatingMul c.baseInterval (1 <<< (min attempts 16).toUInt64)) c.maxInterval
  { c with attempts := attempts, nextAttemptAt := saturatingAdd now backoff }

def confirmUpgraded (c : UpgradeCoordinator) (now : UInt64) : UpgradeCoordinator :=
  if c.path ≠ .direct then { c with path := .direct, upgradedAt := some now } else c

end UpgradeCoordinator

def offeredEndpointIsSafe (endpoint : String) : Bool := (ChannelAck.safeEndpoint endpoint).isSome

end CadsTunnel.Upgrade
