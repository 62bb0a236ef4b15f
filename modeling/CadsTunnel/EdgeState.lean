import CadsTunnel.EdgeFallback
import CadsTunnel.EdgeHosts
import CadsTunnel.EdgeSessions
import CadsTunnel.HexText
import CadsTunnel.SocketText

/-! The registry of the edge: live registrations with the peer candidates and direct
endpoints, the parked slots, the hostname routes, the revoked tokens, the key pins and the
policy that says which tunnels enforce them. Every function is one critical section of the
registration lock and takes the wall clock it reads as an argument. -/
namespace CadsTunnel.Edge
open OrderedMap Words
open Std (ExtTreeMap)

abbrev Key := Vector UInt8 32

inductive AgentKeyMode where
  | log
  | enforce
  deriving DecidableEq, Repr

inductive AgentKeyReason where
  | unproven
  | unprovenBesideProven
  | secondUnproven
  | unprovenTcp
  | foreignKey
  | staleBinding
  | bindingToken
  | badBinding
  | badProof
  | expired
  | timeout
  | oversize
  | evictedOnEnforce
  | revoked
  deriving DecidableEq, Repr

structure ProvenKey where
  key : Key
  issuedAt : UInt64
  deriving DecidableEq, Repr

structure AgentKeyPin where
  pin : Option ProvenKey := none
  provenIds : HashSet Nat := ∅

inductive PinOutcome where
  | accepted
  | repinned
  | rejected (reason : AgentKeyReason)
  deriving DecidableEq, Repr

structure AgentKeyPolicy where
  default : AgentKeyMode := .log
  enforceSet : HashSet Key := ∅
  enforceFile : Option String := none
  issuers : List Key := []

def AgentKeyPolicy.modeFor (policy : AgentKeyPolicy) (tokenHash : Key) : AgentKeyMode :=
  if policy.default = .enforce ∨ policy.enforceSet.contains tokenHash then .enforce else .log

inductive ReloadError where
  | unreadable (message : String)
  | invalid (line : Nat)
  deriving DecidableEq, Repr

/- `str::lines`: a final newline ends a line and starts none, and a carriage return before a newline goes with it. -/
def textLines (text : List Char) : List (List Char) :=
  let pieces := text.splitOn '\n'
  let ended := pieces.dropLast.map (fun line => if line.getLast? = some '\r' then line.dropLast else line)
  ended ++ pieces.getLast?.toList.filter (fun line => !line.isEmpty)

def decode32 (text : String) : Option Key := do
  let bytes ← Hex.decode text
  if size : bytes.length = 32 then some ⟨bytes.toArray,by simpa using size⟩ else none

def parseEnforceList (text : String) : Except ReloadError (HashSet Key) :=
  (textLines text.toList).zipIdx.foldlM (fun out entry =>
    let trimmed := Hostnames.trim entry.1
    if trimmed.isEmpty then pure out
    else
      match decode32 (.ofList trimmed) with
      | none => throw (.invalid (entry.2 + 1))
      | some hash => pure (out.insert hash)) ∅

structure EdgeState (H : Type) where
  registrations : Registrations H := {}
  candidates : HashMap RoutingToken SocketAddr := ∅
  direct : HashMap RoutingToken (SocketAddr × Bytes) := ∅
  directEvictionCursor : UInt64 := 0
  fallback : Fallback := {}
  hostRoutes : HostRoutes := {}
  revoked : HashSet RoutingToken := ∅
  agentPins : HashMap RoutingToken AgentKeyPin := ∅
  agentKeyPolicy : AgentKeyPolicy := {}
  adminToken : Option Key := none
  sessions : Sessions := {}

def directEndpointsMax : Nat := 4096
def directCertMaxLen : Nat := 8 * 1024
def directEvictionSample : Nat := 64

namespace EdgeState
variable {H : Type}

def isRevoked (s : EdgeState H) (token : RoutingToken) : Bool := s.revoked.contains token

/- What the sweeps and the resolver call live: a registration or a parked slot. -/
def isLive (s : EdgeState H) (token : RoutingToken) : Bool := s.registrations.isKnown token || s.fallback.hasTcpAgent token

def registerLocked (s : EdgeState H) (token : RoutingToken) (handle : H) (now : UInt64) : Nat × EdgeState H :=
  let (id,registrations) := s.registrations.registerLocked token handle
  (id,{ s with
    registrations := registrations
    sessions := s.sessions.noteConnected token now .quic })

def register (s : EdgeState H) (token : RoutingToken) (handle : H) (now : UInt64) : Nat × EdgeState H :=
  s.registerLocked token handle now

def registerWithCandidate (s : EdgeState H) (token : RoutingToken) (handle : H) (candidate : SocketAddr) (now : UInt64) :
    Nat × EdgeState H :=
  let (id,s) := s.registerLocked token handle now
  (id,{ s with candidates := s.candidates.insert token candidate })

def registerUnlessRevoked (s : EdgeState H) (token : RoutingToken) (handle : H) (now : UInt64) : Option Nat × EdgeState H :=
  if s.isRevoked token then (none,s)
  else
    let (id,s) := s.registerLocked token handle now
    (some id,s)

def registerWithCandidateUnlessRevoked (s : EdgeState H) (token : RoutingToken) (handle : H) (candidate : SocketAddr)
    (now : UInt64) : Option Nat × EdgeState H :=
  if s.isRevoked token then (none,s)
  else
    let (id,s) := s.registerLocked token handle now
    (some id,{ s with candidates := s.candidates.insert token candidate })

/- What a proven binding does to the pin of a token. -/
def pinProven (entry : AgentKeyPin) (proof : ProvenKey) : PinOutcome × AgentKeyPin :=
  match entry.pin with
  | none => (.accepted,{ entry with pin := some proof })
  | some current =>
    if current.key = proof.key then
      (.accepted,if current.issuedAt < proof.issuedAt then { entry with pin := some proof } else entry)
    else if current.issuedAt < proof.issuedAt then (.repinned,{ pin := some proof })
    else if proof.issuedAt < current.issuedAt then (.rejected .staleBinding,entry)
    else (.rejected .foreignKey,entry)

def pinProvenLocked (s : EdgeState H) (token : RoutingToken) (proof : ProvenKey) : PinOutcome × EdgeState H :=
  let (outcome,entry) := pinProven (s.agentPins[token]?.getD {}) proof
  (outcome,{ s with agentPins := s.agentPins.insert token entry })

def unprovenReasonLocked (s : EdgeState H) (token : RoutingToken) : AgentKeyReason :=
  let live := (s.registrations.live token).map Prod.fst
  if live.isEmpty then .unproven
  else if s.agentPins[token]?.any (fun pin => live.any (fun id => pin.provenIds.contains id)) then .unprovenBesideProven
  else .secondUnproven

def takeRegistrationsLocked (s : EdgeState H) (token : RoutingToken) : List H × EdgeState H :=
  let (removed,registrations) := s.registrations.removeAll token
  (removed,{ s with registrations := registrations })

def markProven (s : EdgeState H) (token : RoutingToken) (id : Nat) : EdgeState H :=
  let entry := s.agentPins[token]?.getD {}
  { s with agentPins := s.agentPins.insert token { entry with provenIds := entry.provenIds.insert id } }

/- The last part of a checked registration, once it is admitted. -/
def letIn (s : EdgeState H) (token : RoutingToken) (handle : H) (candidate : SocketAddr) (provesPin : Bool) (now : UInt64) :
    Nat × EdgeState H :=
  let (id,s) := s.registerLocked token handle now
  let s := { s with candidates := s.candidates.insert token candidate }
  (id,if provesPin then s.markProven token id else s)

def removeLocked (s : EdgeState H) (token : RoutingToken) (reason : CloseReason) (now : UInt64) : EdgeState H :=
  { s with
    registrations := (s.registrations.removeAll token).2
    candidates := s.candidates.erase token
    direct := s.direct.erase token
    fallback := s.fallback.removeTcpAgents token
    agentPins := s.agentPins.erase token
    hostRoutes := s.hostRoutes.clearHostsFor token
    sessions := s.sessions.disconnect token now reason }

def remove (s : EdgeState H) (token : RoutingToken) (now : UInt64) : EdgeState H := s.removeLocked token .removed now

def revokeToken (s : EdgeState H) (token : RoutingToken) (now : UInt64) : EdgeState H :=
  let s := { s with revoked := s.revoked.insert token }.removeLocked token .revoked now
  { s with hostRoutes := s.hostRoutes.clearHostAuthFor token }

def seedRevokedTokens (s : EdgeState H) (tokens : List RoutingToken) : EdgeState H :=
  { s with revoked := s.revoked.insertMany tokens }

def forgetProven (s : EdgeState H) (token : RoutingToken) (id : Nat) : EdgeState H :=
  match s.agentPins[token]? with
  | none => s
  | some pin => { s with agentPins := s.agentPins.insert token { pin with provenIds := pin.provenIds.erase id } }

/- The candidate and the direct endpoint go with the last registration, the routes and the streak only when no slot is
parked either. -/
def dropRegistration (s : EdgeState H) (token : RoutingToken) (id : Nat) (now : UInt64) : EdgeState H :=
  let (last,registrations) := s.registrations.removeId token id
  let s := { s with registrations := registrations }
  if !last then s
  else
    let s := { s with candidates := s.candidates.erase token, direct := s.direct.erase token }
    if s.fallback.hasTcpAgent token then s
    else { s with
      hostRoutes := s.hostRoutes.clearHostsFor token
      sessions := s.sessions.disconnect token now .registrationClosed }

def removeRegistration (s : EdgeState H) (token : RoutingToken) (id : Nat) (now : UInt64) : EdgeState H :=
  (s.forgetProven token id).dropRegistration token id now

def registerHost (s : EdgeState H) (host : String) (token : RoutingToken) : Except HostBindRefusal Unit × EdgeState H :=
  match Hostnames.normalizeHostname host with
  | none => (.error .malformedHostname,s)
  | some key =>
    if s.isRevoked token then (.error .revoked,s)
    else
      match s.hostRoutes.bind key token with
      | .error refusal => (.error refusal,s)
      | .ok routes => (.ok (),{ s with hostRoutes := routes })

/- The sample window over the keys of the full map. -/
def evictionSample (order : List RoutingToken) (start : Nat) : List RoutingToken :=
  (List.range directEvictionSample).filterMap (fun i => order[(start + i) % order.length]?)

/- `order` is the iteration order of the map, which the standard library leaves open. -/
def advertiseDirect (s : EdgeState H) (token : RoutingToken) (addr : SocketAddr) (cert : Bytes) (order : List RoutingToken) :
    Bool × EdgeState H :=
  if s.isRevoked token || directCertMaxLen < cert.length then (false,s)
  else if s.direct.size < directEndpointsMax || s.direct.contains token then
    (true,{ s with direct := s.direct.insert token (addr,cert) })
  else
    let start := s.directEvictionCursor.toNat % s.direct.size
    let s := { s with directEvictionCursor := s.directEvictionCursor + .ofNat directEvictionSample }
    let victim := (evictionSample order start).find? (fun t => s.registrations.registrationCount t == 0 && !s.fallback.hasTcpAgent t)
    match victim with
    | none => (false,s)
    | some victim => (true,{ s with direct := (s.direct.erase victim).insert token (addr,cert) })

def parkTcpAgent (s : EdgeState H) (token : RoutingToken) (now : UInt64) : Nat × EdgeState H :=
  let (slot,fallback) := s.fallback.parkTcpAgent token
  (slot,{ s with
    fallback := fallback
    sessions := s.sessions.noteConnected token now .tcpFallback })

def parkTcpAgentUnlessRevoked (s : EdgeState H) (token : RoutingToken) (now : UInt64) : Option Nat × EdgeState H :=
  if s.isRevoked token then (none,s)
  else
    let (slot,s) := s.parkTcpAgent token now
    (some slot,s)

def ageOutStaleHistory (s : EdgeState H) (now maxAgeSecs : UInt64) : Nat × EdgeState H :=
  let (pruned,sessions) := s.sessions.ageOutStaleHistory s.isLive now maxAgeSecs
  (pruned,{ s with sessions := sessions })

def flushTunnelHistory (s : EdgeState H) (now idleEvictSecs : UInt64) : (Nat × Nat) × EdgeState H :=
  let (counts,sessions) := s.sessions.flushTunnelHistory s.isLive now idleEvictSecs
  (counts,{ s with sessions := sessions })

/- The hash of a token under which the policy lists it; SHA-256 in the source. -/
variable (agentKeyTokenHash : RoutingToken → Key)

def agentKeyModeFor (s : EdgeState H) (token : RoutingToken) : AgentKeyMode :=
  s.agentKeyPolicy.modeFor (agentKeyTokenHash token)

/- A switch to enforcement that happened since the caller read its mode wins. -/
def agentKeyModeLocked (s : EdgeState H) (token : RoutingToken) (readByCaller : AgentKeyMode) : AgentKeyMode :=
  if s.agentKeyModeFor agentKeyTokenHash token = .enforce then .enforce else readByCaller

def registerWithCandidateChecked (s : EdgeState H) (token : RoutingToken) (handle : H) (candidate : SocketAddr)
    (mode : AgentKeyMode) (proof : Option ProvenKey) (now : UInt64) : Except AgentKeyReason (Nat × List H) × EdgeState H :=
  let refusing := s.agentKeyModeLocked agentKeyTokenHash token mode = .enforce
  if s.isRevoked token then (.error .revoked,s)
  else
    match proof with
    | none =>
      if refusing then (.error (s.unprovenReasonLocked token),s)
      else
        let (id,s) := s.letIn token handle candidate false now
        (.ok (id,[]),s)
    | some proof =>
      match s.pinProvenLocked token proof with
      | (.accepted,s) =>
        let (id,s) := s.letIn token handle candidate true now
        (.ok (id,[]),s)
      | (.repinned,s) =>
        let (removed,s) := s.takeRegistrationsLocked token
        let (id,s) := s.letIn token handle candidate true now
        (.ok (id,removed),s)
      | (.rejected reason,s) =>
        if refusing then (.error reason,s)
        else
          let (id,s) := s.letIn token handle candidate false now
          (.ok (id,[]),s)

def parkTcpAgentChecked (s : EdgeState H) (token : RoutingToken) (mode : AgentKeyMode) (now : UInt64) :
    Option Nat × EdgeState H :=
  if s.isRevoked token then (none,s)
  else if s.agentKeyModeLocked agentKeyTokenHash token mode = .enforce then (none,s)
  else
    let (slot,s) := s.parkTcpAgent token now
    (some slot,s)

def newlyEnforced (s : EdgeState H) (next : AgentKeyPolicy) (token : RoutingToken) : Bool :=
  next.modeFor (agentKeyTokenHash token) = .enforce && s.agentKeyPolicy.modeFor (agentKeyTokenHash token) = .log

def swapAgentKeyPolicyLocked (s : EdgeState H) (next : AgentKeyPolicy) : List RoutingToken × EdgeState H :=
  let known := s.registrations.agents.keys
  let tokens := known ++ s.fallback.tcpAgents.keys.filter (fun token => token ∉ known)
  (tokens.filter (s.newlyEnforced agentKeyTokenHash next),{ s with agentKeyPolicy := next })

omit agentKeyTokenHash in
def enforceTunnelLocked (s : EdgeState H) (token : RoutingToken) : List H × EdgeState H :=
  let proven := (s.agentPins[token]?.map AgentKeyPin.provenIds).getD ∅
  let (removed,registrations) := s.registrations.evictUnproven token proven
  (removed,{ s with
    registrations := registrations
    fallback := s.fallback.removeTcpAgents token })

def setAgentKeyPolicy (s : EdgeState H) (next : AgentKeyPolicy) : List H × EdgeState H :=
  let (newly,s) := s.swapAgentKeyPolicyLocked agentKeyTokenHash next
  newly.foldl (fun acc token =>
    let (removed,s) := acc.2.enforceTunnelLocked token
    (acc.1 ++ removed,s)) ([],s)

/- `file` is what reading the stored path gives, or the message of the error. -/
def reloadAgentKeyPolicyFromFile (s : EdgeState H) (file : Except String String) : Except ReloadError (List H) × EdgeState H :=
  match s.agentKeyPolicy.enforceFile with
  | none => (.error (.unreadable "no enforce-list path set"),s)
  | some path =>
    match file with
    | .error message => (.error (.unreadable (path ++ ": " ++ message)),s)
    | .ok text =>
      match parseEnforceList text with
      | .error refusal => (.error refusal,s)
      | .ok enforceSet =>
        let (removed,s) := s.setAgentKeyPolicy agentKeyTokenHash { s.agentKeyPolicy with enforceSet := enforceSet }
        (.ok removed,s)

end EdgeState
end CadsTunnel.Edge
