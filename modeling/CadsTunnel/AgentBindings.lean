import CadsTunnel.Preimage
import CadsTunnel.Slices

/-! The binding of a routing token to a tunnel and to the key of its agent: the wire form,
the checks against the issuers and the clock, and the proof that the peer holds the key. -/
namespace CadsTunnel.Bindings
open Words Slices

abbrev Key := Vector UInt8 32
abbrev Signature := Vector UInt8 64

/- SHA-256, whether bytes are a point of the curve, and the strict verification under a point. -/
structure Primitives where
  sha256 : Bytes → Key
  validKey : Key → Bool
  verifyStrict : Key → Bytes → Signature → Bool

def clockSkewSecs : UInt64 := 300
def maxEncodedLen : Nat := 512
def maxTunnelIdLen : Nat := 128

inductive AgentBindingError where
  | malformed
  | tunnelIdTooLong
  | tokenMismatch
  | expired
  | issuedInFuture
  | unknownIssuer
  | badSignature
  | badKey
  deriving DecidableEq, Repr

structure AgentBinding where
  tunnelId : String
  tokenHash : Key
  agentPubkey : Key
  issuedAt : UInt64
  expiresAt : UInt64

def AgentBinding.signingBytes (b : AgentBinding) : Bytes :=
  (((((Preimage.new (asBytes "ct-agent-binding:v1")).varBytes (asBytes b.tunnelId)).fixed b.tokenHash.toList).fixed
    b.agentPubkey.toList).u64 b.issuedAt).u64 b.expiresAt |>.finish

structure SignedAgentBinding where
  binding : AgentBinding
  signature : Signature

/- The next field of the wire form. -/
def field (n : Nat) : StateT Bytes (Except AgentBindingError) (Vector UInt8 n) := fun cur =>
  match toArray n (cur.take n) with
  | some v => .ok (v,cur.drop n)
  | none => .error .malformed

def decodeFields : StateT Bytes (Except AgentBindingError) SignedAgentBinding := do
  let signature ← field 64
  let tunnelIdLen := fromLeBytes (← field 4)
  if maxTunnelIdLen < tunnelIdLen then throw .tunnelIdTooLong
  let some tunnelId := fromUtf8 (← field tunnelIdLen).toList | throw .malformed
  let tokenHash ← field 32
  let agentPubkey ← field 32
  let issuedAt ← field 8
  let expiresAt ← field 8
  pure ⟨⟨tunnelId,tokenHash,agentPubkey,.ofNat (fromLeBytes issuedAt),.ofNat (fromLeBytes expiresAt)⟩,signature⟩

def decode (bytes : Bytes) : Except AgentBindingError SignedAgentBinding :=
  if maxEncodedLen < bytes.length then .error .malformed
  else
    match decodeFields bytes with
    | .error e => .error e
    | .ok (signed,rest) => if rest.isEmpty then .ok signed else .error .malformed

def verifyBinding (crypto : Primitives) (issuers : List Key) (signed : SignedAgentBinding) (token : Bytes) (now : UInt64) :
    Except AgentBindingError Unit :=
  let binding := signed.binding
  if maxTunnelIdLen < (asBytes binding.tunnelId).length then .error .tunnelIdTooLong
  else if binding.tokenHash ≠ crypto.sha256 token then .error .tokenMismatch
  else if binding.expiresAt ≤ now then .error .expired
  else if saturatingAdd now clockSkewSecs < binding.issuedAt then .error .issuedInFuture
  else if issuers.any (fun issuer => crypto.validKey issuer && crypto.verifyStrict issuer binding.signingBytes signed.signature) then
    .ok ()
  else .error .unknownIssuer

def registrationChallengeBytes (nonce : Vector UInt8 32) (token : Bytes) : Bytes :=
  ((Preimage.new (asBytes "ct-agent-reg:v1")).fixed nonce.toList).varBytes token |>.finish

def verifyRegistration (crypto : Primitives) (issuers : List Key) (signed : SignedAgentBinding) (token : Bytes)
    (nonce : Vector UInt8 32) (signature : Signature) (now : UInt64) : Except AgentBindingError Unit := do
  verifyBinding crypto issuers signed token now
  if !crypto.validKey signed.binding.agentPubkey then throw .badKey
  if !crypto.verifyStrict signed.binding.agentPubkey (registrationChallengeBytes nonce token) signature then throw .badSignature

end CadsTunnel.Bindings
