import CadsTunnel.AgentBindings
import CadsTunnel.EdgeGauges
import CadsTunnel.Programs

/-! The data-plane connections of the edge. A stream is served by a program that dispatches
on its role byte; each of its calls is one step on the shared registry, on the stream or on
the clock, and other tasks use the registry in between. The task of a connection serves its
first stream and, when that one registered an agent, the further ones in a loop. -/
namespace CadsTunnel.Edge
open Words Program
open Bindings (Primitives AgentBindingError)

/- A timeout elapsed, or the transport failed. -/
inductive Failure where
  | elapsed
  | broken
  deriving DecidableEq, Repr

inductive ServeError where
  | message (text : String)
  | transport
  | invalidUtf8
  | invalidAddress
  | unresponsive (total : Nat) (last : Failure)
  | exhausted (cause : ServeError) (pool : Nat)
  deriving DecidableEq, Repr

/- The buffers of the protocol, under the names the handler gives them; `answer` is what it writes back. -/
inductive Field where
  | role | token | nonce | lenBytes | bindingBytes | signature | chal | req | al | addrBuf | cl | cert | hl | host | auth | answer
  deriving DecidableEq, Repr

/- What a handler does to the stream, to the connections, to the world and to the registry. `relay` is the copy between a
client and an agent, cut when the token is revoked; `openBi` names the agents that are left to try. -/
inductive Call (H : Type) where
  | acceptBi
  | readExact (field : Field) (n : Nat)
  | writeAll (field : Field) (bytes : Bytes)
  | finish
  | close (old : H)
  | openBi (agent : H) (others : List H)
  | relay (token : RoutingToken)
  | fillBytes
  | unixNow
  | remoteAddress
  | rendezvousAllowed (token : RoutingToken)
  | agentKeyModeFor (token : RoutingToken)
  | agentKeyIssuers
  | registerWithCandidateChecked (token : RoutingToken) (candidate : SocketAddr) (mode : AgentKeyMode) (proof : Option ProvenKey)
  | isResolvable (token : RoutingToken)
  | hasTcpAgent (token : RoutingToken)
  | waitForTcpAgent (token : RoutingToken)
  | deliverToTcpAgentDraining (token : RoutingToken)
  | tcpParkedFor (token : RoutingToken)
  | routes (token : RoutingToken)
  | noteRelay (token : RoutingToken) (clientToAgent agentToClient : UInt64)
  | advertiseDirect (token : RoutingToken) (addr : SocketAddr) (cert : Bytes)
  | hostBindAllowed (host : String) (token : RoutingToken)
  | registerHost (host : String) (token : RoutingToken)
  | directEndpoint (token : RoutingToken)
  | adminRevokeOk (auth : Key)
  | revokeToken (token : RoutingToken)

def Call.Reply {H : Type} : Call H → Type
  | .acceptBi | .writeAll .. | .finish | .openBi .. => Except Failure Unit
  | .readExact _ n => Except Failure (Vector UInt8 n)
  | .relay _ => Except Failure (UInt64 × UInt64)
  | .close _ | .noteRelay .. | .revokeToken _ => Unit
  | .fillBytes => Vector UInt8 32
  | .unixNow => UInt64
  | .remoteAddress => SocketAddr
  | .rendezvousAllowed _ | .isResolvable _ | .hasTcpAgent _ | .waitForTcpAgent _ | .advertiseDirect .. | .hostBindAllowed ..
  | .adminRevokeOk _ => Bool
  | .agentKeyModeFor _ => AgentKeyMode
  | .agentKeyIssuers => List Key
  | .registerWithCandidateChecked .. => Except AgentKeyReason (Nat × List H)
  | .deliverToTcpAgentDraining _ => Option Nat
  | .tcpParkedFor _ => Nat
  | .routes _ => List H
  | .registerHost .. => Except HostBindRefusal Unit
  | .directEndpoint _ => Option (SocketAddr × Bytes)

/- What the outside decides about one call. -/
structure World where
  transport : Except Failure Unit := .ok ()
  received : (n : Nat) → Except Failure (Vector UInt8 n) := fun n => .ok (.replicate n 0)
  copied : Except Failure (UInt64 × UInt64) := .ok (0,0)
  random : Vector UInt8 32 := .replicate 32 0
  now : UInt64 := 0
  remote : SocketAddr := ⟨.v4 (.replicate 4 127),7844,0⟩
  allowed : Bool := true
  late : Nat → Bool := fun _ => false
  order : List RoutingToken := []

namespace EdgeState
variable {H : Type}

def tcpFallbackResolvableGraceSecs : UInt64 := 2

def isResolvable (s : EdgeState H) (token : RoutingToken) (now : UInt64) : Bool :=
  s.isLive token || s.sessions.lastSeen[token]?.any (fun seen => saturatingSub now seen ≤ tcpFallbackResolvableGraceSecs)

/- Newest first. -/
def routes (s : EdgeState H) (token : RoutingToken) : List H := (s.registrations.live token).reverse.map Prod.snd

def directEndpoint (s : EdgeState H) (token : RoutingToken) : Option (SocketAddr × Bytes) :=
  if s.isRevoked token then none else s.direct[token]?

/- The comparison takes constant time; its answer is equality. -/
def adminRevokeOk (s : EdgeState H) (auth : Key) : Bool := s.adminToken.any (· == auth)

end EdgeState

/- The registry and whether this connection is open. -/
structure Shared (H : Type) where
  edge : EdgeState H := {}
  isOpen : Bool := true

section Perform
variable {H : Type} [DecidableEq H] (crypto : Primitives) (me : H)

def agentKeyTokenHash (crypto : Primitives) (token : RoutingToken) : Key := crypto.sha256 token.toList

def perform (s : Shared H) (c : Call H) (world : World) : c.Reply × Shared H :=
  match c with
  | .acceptBi | .writeAll .. | .finish | .openBi .. => (world.transport,s)
  | .readExact _ n => (world.received n,s)
  | .relay _ => (world.copied,s)
  | .fillBytes => (world.random,s)
  | .unixNow => (world.now,s)
  | .remoteAddress => (world.remote,s)
  | .rendezvousAllowed _ => (world.allowed,s)
  | .close old => ((),{ s with isOpen := s.isOpen && old != me })
  | .agentKeyModeFor token => (s.edge.agentKeyModeFor (agentKeyTokenHash crypto) token,s)
  | .agentKeyIssuers => (s.edge.agentKeyPolicy.issuers,s)
  | .registerWithCandidateChecked token candidate mode proof =>
    let (answer,edge) := s.edge.registerWithCandidateChecked (agentKeyTokenHash crypto) token me candidate mode proof world.now
    (answer,{ s with edge := edge })
  | .isResolvable token => (s.edge.isResolvable token world.now,s)
  | .hasTcpAgent token | .waitForTcpAgent token => (s.edge.fallback.hasTcpAgent token,s)
  | .deliverToTcpAgentDraining token =>
    let (slot,fallback) := s.edge.fallback.deliverToTcpAgentDraining token world.late
    (slot,{ s with edge := { s.edge with fallback := fallback } })
  | .tcpParkedFor token => ((s.edge.fallback.parked token).length,s)
  | .routes token => (s.edge.routes token,s)
  | .noteRelay token clientToAgent agentToClient =>
    ((),{ s with edge := { s.edge with sessions := s.edge.sessions.noteRelay token clientToAgent agentToClient world.now } })
  | .advertiseDirect token addr cert =>
    let (ok,edge) := s.edge.advertiseDirect token addr cert world.order
    (ok,{ s with edge := edge })
  | .hostBindAllowed host token => (s.edge.hostRoutes.hostBindAllowed host token,s)
  | .registerHost host token =>
    let (answer,edge) := s.edge.registerHost host token
    (answer,{ s with edge := edge })
  | .directEndpoint token => (s.edge.directEndpoint token,s)
  | .adminRevokeOk auth => (s.edge.adminRevokeOk auth,s)
  | .revokeToken token => ((),{ s with edge := s.edge.revokeToken token world.now })

end Perform

structure Challenge where
  nonce : Vector UInt8 16
  difficulty : UInt8

/- The zero bits in front of the first set one. -/
def leadingZeroBits : Bytes → Nat
  | [] => 0
  | byte :: rest => if byte = 0 then 8 + leadingZeroBits rest else 7 - Nat.log2 byte.toNat

def Challenge.verify (crypto : Primitives) (challenge : Challenge) (token : RoutingToken) (solution : UInt64) : Bool :=
  challenge.difficulty.toNat ≤ leadingZeroBits (crypto.sha256 (challenge.nonce.toList ++ token.toList ++ u64LE solution)).toList

inductive GateError where
  | malformed
  | badProofOfWork
  deriving DecidableEq, Repr

/- The request is `solution(8) | token(32)`. -/
def checkRequest (crypto : Primitives) (challenge : Challenge) (request : Bytes) : Except GateError RoutingToken :=
  if request.length ≠ 40 then .error .malformed
  else
    let solution := UInt64.ofNat (readLE (request.take 8))
    let token : RoutingToken := .ofFn (fun i => request.getD (8 + i.val) 0)
    if challenge.verify crypto token solution then .ok token else .error .badProofOfWork

abbrev Serve (H α : Type) := Fallible (Call H) Call.Reply ServeError α

/- `timeout(..).await.map_err(..)??`. -/
def within {C α : Type} {R : C → Type} (late : String) : Except Failure α → Fallible C R ServeError α
  | .ok a => pure a
  | .error .elapsed => throw (.message late)
  | .error .broken => throw .transport

section Streams
variable {H : Type}

/- `.await?`. -/
def untimed {α : Type} : Except Failure α → Serve H α
  | .ok a => pure a
  | .error _ => throw .transport

def readExact (field : Field) (n : Nat) : Serve H (Vector UInt8 n) := do
  untimed (← query (Call.readExact field n))

def writeAll (field : Field) (bytes : Bytes) : Serve H Unit := do
  untimed (← query (Call.writeAll field bytes))

def finish : Serve H Unit := do
  untimed (← query Call.finish)

def answer (text : String) : Serve H Unit := do
  writeAll .answer (asBytes text)
  finish

/- The end of both registering roles: the displaced connections are closed, the agent gets its answer, and the caller the
registration to evict when the connection drops. -/
def admission (token : RoutingToken) (admitted : Except AgentKeyReason (Nat × List H)) : Serve H (Option (RoutingToken × Nat)) :=
  match admitted with
  | .error _ => do
    answer "NO"
    pure none
  | .ok (reg,removed) => do
    removed.forM (fun old => query (Call.close old))
    answer "OK"
    pure (some (token,reg))

def serveAgent : Serve H (Option (RoutingToken × Nat)) := do
  let token ← within "serve_connection: token not received within the admission timeout (#449)"
    (← query (Call.readExact .token 32))
  let remote ← query Call.remoteAddress
  let mode ← query (Call.agentKeyModeFor token)
  admission token (← query (Call.registerWithCandidateChecked token remote mode none))

def maxBindingLen : Nat := 512

def mapBindingError : AgentBindingError → AgentKeyReason
  | .tokenMismatch | .tunnelIdTooLong => .bindingToken
  | .malformed | .unknownIssuer | .badKey | .issuedInFuture => .badBinding
  | .badSignature => .badProof
  | .expired => .expired

/- Every read and write of the handshake fails with the same reason. -/
def handshake {α : Type} : Except Failure α → Fallible (Call H) Call.Reply AgentKeyReason α
  | .ok a => pure a
  | .error _ => throw .timeout

def proveAgentKey (crypto : Primitives) (token : RoutingToken) (issuers : List Key) (now : UInt64) :
    Fallible (Call H) Call.Reply AgentKeyReason ProvenKey := do
  let nonce ← query Call.fillBytes
  handshake (← query (Call.writeAll .nonce (Vector.toList nonce)))
  let lenBytes ← handshake (← query (Call.readExact .lenBytes 2))
  let len := readBE lenBytes.toList
  if maxBindingLen < len then throw .oversize
  else
    let bindingBytes ← handshake (← query (Call.readExact .bindingBytes len))
    let signature ← handshake (← query (Call.readExact .signature 64))
    match Bindings.decode bindingBytes.toList with
    | .error e => throw (mapBindingError e)
    | .ok signed =>
      match Bindings.verifyRegistration crypto issuers signed token.toList nonce signature now with
      | .error e => throw (mapBindingError e)
      | .ok () => pure ⟨signed.binding.agentPubkey,signed.binding.issuedAt⟩

def serveProven (crypto : Primitives) : Serve H (Option (RoutingToken × Nat)) := do
  let token ← within "serve_connection: 'V' token not received in time (#449)" (← query (Call.readExact .token 32))
  let mode ← query (Call.agentKeyModeFor token)
  let issuers ← query Call.agentKeyIssuers
  let remote ← query Call.remoteAddress
  let now ← query Call.unixNow
  match ← ExceptT.lift (proveAgentKey crypto token issuers now).run with
  | .error _ => do
    answer "NO"
    pure none
  | .ok proven => admission token (← query (Call.registerWithCandidateChecked token remote mode (some proven)))

/- The agents are tried one after the other; the last failure is reported. -/
def openFirst (total : Nat) : Failure → List H → Serve H Unit
  | last, [] => throw (.unresponsive total last)
  | _, agent :: others => do
    match (← query (Call.openBi agent others) : Except Failure Unit) with
    | .ok () => pure ()
    | .error why => openFirst total why others

def openAgentStream (token : RoutingToken) : Serve H Unit := do
  match (← query (Call.routes token) : List H) with
  | [] => throw (.message ("no agent tunnel for token " ++ Hex.encode (token.toList.take 4)))
  | agents => openFirst agents.length .broken agents

def relayed (token : RoutingToken) : Serve H (Option (RoutingToken × Nat)) := do
  let (clientToAgent,agentToClient) ← untimed (← query (Call.relay token))
  query (Call.noteRelay token clientToAgent agentToClient)
  pure none

def deliverAfterTcpFallbackWait (token : RoutingToken) : Serve H Bool := do
  let found : Bool ← query (Call.waitForTcpAgent token)
  if found then
    let slot ← query (Call.deliverToTcpAgentDraining token)
    pure (Option.isSome slot)
  else pure false

/- A parked agent is preferred; when it was taken meanwhile, or there is none, an agent of the registry. -/
def routeClient (token : RoutingToken) : Serve H (Option (RoutingToken × Nat)) := do
  let parked : Bool ← query (Call.hasTcpAgent token)
  if parked then
    match (← query (Call.deliverToTcpAgentDraining token) : Option Nat) with
    | some _ => pure none
    | none => do
      openAgentStream token
      relayed token
  else
    match ← ExceptT.lift (openAgentStream token).run with
    | .ok () => relayed token
    | .error e => do
      let delivered ← deliverAfterTcpFallbackWait token
      if delivered then pure none
      else
        let pool ← query (Call.tcpParkedFor token)
        throw (.exhausted e pool)

def serveClient (crypto : Primitives) (challenge : Challenge) : Serve H (Option (RoutingToken × Nat)) := do
  writeAll .chal (challenge.nonce.toList ++ [challenge.difficulty])
  let req ← within "serve_connection: PoW response not received within the timeout (#449)" (← query (Call.readExact .req 40))
  match checkRequest crypto challenge req.toList with
  | .error _ => throw (.message "proof of work rejected")
  | .ok token =>
    let resolvable : Bool ← query (Call.isResolvable token)
    if !resolvable then throw (.message "unknown routing token")
    else
      let allowed : Bool ← query (Call.rendezvousAllowed token)
      if !allowed then throw (.message "rendezvous rate limit exceeded")
      else routeClient token

def serveDirect : Serve H (Option (RoutingToken × Nat)) := do
  let token ← readExact .token 32
  let al ← readExact .al 1
  let addrBuf ← readExact .addrBuf al[0].toNat
  let cl ← readExact .cl 2
  let cert ← readExact .cert (readBE cl.toList)
  match fromUtf8 addrBuf.toList with
  | none => throw .invalidUtf8
  | some text =>
    match SocketText.parse text with
    | none => throw .invalidAddress
    | some addr =>
      let ok : Bool ← query (Call.advertiseDirect token addr cert.toList)
      answer (if ok then "OK" else "NO")
      pure none

def serveHost : Serve H (Option (RoutingToken × Nat)) := do
  let token ← readExact .token 32
  let hl ← readExact .hl 2
  let hlen := readBE hl.toList
  if hlen = 0 ∨ 253 < hlen then throw (.message "invalid Browser-Plane hostname length")
  else
    let host ← readExact .host hlen
    match fromUtf8 host.toList with
    | none => throw (.message "hostname is not valid UTF-8")
    | some host =>
      let allowed : Bool ← query (Call.hostBindAllowed host token)
      if !allowed then
        answer "NO"
        pure none
      else
        match (← query (Call.registerHost host token) : Except HostBindRefusal Unit) with
        | .ok () => do
          answer "OK"
          pure none
        | .error _ => do
          answer "NO"
          pure none

def serveDirectQuery : Serve H (Option (RoutingToken × Nat)) := do
  let token ← readExact .token 32
  match (← query (Call.directEndpoint token) : Option (SocketAddr × Bytes)) with
  | some (addr,cert) => do
    let text := asBytes (SocketText.toText addr)
    writeAll .answer [1,.ofNat text.length]
    writeAll .answer text
    writeAll .answer (be 2 cert.length)
    writeAll .answer cert
    finish
    pure none
  | none => do
    writeAll .answer [0]
    finish
    pure none

def serveWhoami : Serve H (Option (RoutingToken × Nat)) := do
  let remote ← query Call.remoteAddress
  let text := asBytes (SocketText.toText remote)
  writeAll .answer [.ofNat text.length]
  writeAll .answer text
  finish
  pure none

def serveRevoke : Serve H (Option (RoutingToken × Nat)) := do
  let auth ← readExact .auth 32
  let token ← readExact .token 32
  let ok : Bool ← query (Call.adminRevokeOk auth)
  if ok then
    query (Call.revokeToken token)
    answer "OK"
    pure none
  else
    answer "NO"
    pure none

/- The handlers of the role bytes. -/
def dispatch (crypto : Primitives) (challenge : Challenge) (role : UInt8) : Serve H (Option (RoutingToken × Nat)) :=
  match Char.ofNat role.toNat with
  | 'A' => serveAgent
  | 'V' => serveProven crypto
  | 'C' => serveClient crypto challenge
  | 'D' => serveDirect
  | 'H' => serveHost
  | 'P' => serveDirectQuery
  | 'W' => serveWhoami
  | 'R' => serveRevoke
  | _ => throw (.message ("unknown role byte: " ++ toString role))

def serveConnection (crypto : Primitives) (challenge : Challenge) : Serve H (Option (RoutingToken × Nat)) := do
  within "serve_connection: no stream opened within the admission timeout (#449)" (← query Call.acceptBi)
  let role ← within "serve_connection: role byte not received within the admission timeout (#449)"
    (← query (Call.readExact .role 1))
  dispatch crypto challenge role[0]

end Streams

abbrev Served := Except ServeError (Option (RoutingToken × Nat))

/- Where the task of a connection stands: at its first stream, in the loop over the further ones, in the moment of grace
before it closes a failed admission, waiting for the connection to close, or done. -/
inductive Phase (H : Type) where
  | first (program : Program (Call H) Call.Reply Served)
  | later (token : RoutingToken) (reg : Nat) (program : Program (Call H) Call.Reply Served)
  | grace
  | waiting (registered : Option (RoutingToken × Nat))
  | finished

def Phase.isFinished {H : Type} : Phase H → Bool
  | .finished => true
  | _ => false

structure AcceptTask (H : Type) where
  shared : Shared H := {}
  phase : Phase H

/- A step of the task with what the world says to it, a step of another task on the registry, or the end of the
connection. -/
inductive Event (H : Type) where
  | turn (world : World)
  | other (op : Op H)
  | disconnect

namespace AcceptTask
variable {H : Type} [DecidableEq H] (crypto : Primitives) (challenge : Challenge) (me : H)

def start : AcceptTask H := { phase := .first (serveConnection crypto challenge).run }

/- What the task does with the outcome of the first stream. -/
def admitted : Served → Phase H
  | .ok (some (token,reg)) => .later token reg (serveConnection crypto challenge).run
  | .ok none => .waiting none
  | .error _ => .grace

/- One more round of the loop, or its end. -/
def again (token : RoutingToken) (reg : Nat) : Served → Phase H
  | .ok _ => .later token reg (serveConnection crypto challenge).run
  | .error _ => .waiting (some (token,reg))

def turn (t : AcceptTask H) (world : World) : AcceptTask H :=
  match t.phase with
  | .first (.done served) => { t with phase := admitted crypto challenge served }
  | .first (.call c next) =>
    let (reply,shared) := perform crypto me t.shared c world
    { shared := shared, phase := .first (next reply) }
  | .later token reg (.done served) => { t with phase := again crypto challenge token reg served }
  | .later token reg (.call c next) =>
    let (reply,shared) := perform crypto me t.shared c world
    { shared := shared, phase := .later token reg (next reply) }
  | .grace => { shared := { t.shared with isOpen := false }, phase := .waiting none }
  | .waiting registered =>
    if t.shared.isOpen then t
    else
      let edge := match registered with
        | some (token,reg) => t.shared.edge.removeRegistration token reg world.now
        | none => t.shared.edge
      { shared := { t.shared with edge := edge }, phase := .finished }
  | .finished => t

/- No other task has a handle of this connection to register. -/
def step (t : AcceptTask H) : Event H → Unit × AcceptTask H
  | .turn world => ((),t.turn crypto challenge me world)
  | .other op =>
    ((),if op.handle = some me then t
      else { t with shared := { t.shared with edge := t.shared.edge.apply (agentKeyTokenHash crypto) op } })
  | .disconnect => ((),{ t with shared := { t.shared with isOpen := false } })

def run (events : List (Event H)) : AcceptTask H :=
  Machine.run (step crypto challenge me) (start crypto challenge) events

end AcceptTask
end CadsTunnel.Edge
