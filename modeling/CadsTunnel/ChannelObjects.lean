import CadsTunnel.Preimage

/-! The signed objects of the channel and marketplace layer, each with the
preimage its signer covers and the check a reader makes. Key parsing and the
ed25519 verification are one primitive predicate, false for bytes that are no
key; SHA-256 is the other primitive. -/
namespace CadsTunnel
open Words Delimited

abbrev Key := Vector UInt8 32
abbrev Hash := Vector UInt8 32
abbrev Signature := Vector UInt8 64
abbrev ChannelId := Vector UInt8 32
abbrev CellId := Vector UInt8 32
abbrev UnixSeconds := UInt64

structure Crypto where
  verify : Key → Bytes → Signature → Bool
  sha256 : Bytes → Hash

namespace ChannelObjects

def topologyOperatorBindingBytes (topologyId : String) (operatorPubkey : Key) : Bytes :=
  Preimage.new (asBytes "ct-topology-operator-v1")
    |>.u64 (.ofNat (asBytes topologyId).length) |>.fixed (asBytes topologyId)
    |>.fixed operatorPubkey.toList |>.finish

def memberNoiseAttestBytes (channel : ChannelId) (holder noisePubkey : Key) : Bytes :=
  Preimage.new (asBytes "ct-a2a-noise-attest-v1")
    |>.fixed channel.toList |>.fixed holder.toList |>.fixed noisePubkey.toList |>.finish

structure MembershipStaple where
  channel : ChannelId
  holder : Key
  stapledAt : UnixSeconds
  expiresAt : UnixSeconds
  signature : Signature
  deriving DecidableEq, Repr

def MembershipStaple.signingBytes (channel : ChannelId) (holder : Key) (stapledAt expiresAt : UnixSeconds) : Bytes :=
  Preimage.new (asBytes "ct-membership-staple-v1")
    |>.fixed channel.toList |>.fixed holder.toList |>.u64 stapledAt |>.u64 expiresAt |>.finish

def MembershipStaple.isValid (crypto : Crypto) (s : MembershipStaple) (operatorPubkey : Key) (now : UnixSeconds) : Bool :=
  decide (now < s.expiresAt) &&
    crypto.verify operatorPubkey (signingBytes s.channel s.holder s.stapledAt s.expiresAt) s.signature

structure BillingCommitment where
  channel : ChannelId
  holder : Key
  payee : Key
  termsHash : Hash
  maxAmount : UInt64
  expiresAt : UnixSeconds
  signature : Signature
  deriving DecidableEq, Repr

def BillingCommitment.signingBytes (channel : ChannelId) (holder payee : Key) (termsHash : Hash)
    (maxAmount : UInt64) (expiresAt : UnixSeconds) : Bytes :=
  Preimage.new (asBytes "ct-billing-commitment-v1")
    |>.fixed channel.toList |>.fixed holder.toList |>.fixed payee.toList |>.fixed termsHash.toList
    |>.u64 maxAmount |>.u64 expiresAt |>.finish

def BillingCommitment.isValid (crypto : Crypto) (c : BillingCommitment) (now : UnixSeconds) : Bool :=
  decide (now < c.expiresAt) &&
    crypto.verify c.holder (signingBytes c.channel c.holder c.payee c.termsHash c.maxAmount c.expiresAt) c.signature

structure SettleReceipt where
  channel : ChannelId
  receiver : Key
  termsHash : Hash
  sessionNonce : Vector UInt8 32
  bytesDelivered : UInt64
  transferDigest : Hash
  signature : Signature
  deriving DecidableEq, Repr

def SettleReceipt.signingBytes (channel : ChannelId) (receiver : Key) (termsHash : Hash)
    (sessionNonce : Vector UInt8 32) (bytesDelivered : UInt64) (transferDigest : Hash) : Bytes :=
  Preimage.new (asBytes "ct-settle-receipt-v1")
    |>.fixed channel.toList |>.fixed receiver.toList |>.fixed termsHash.toList |>.fixed sessionNonce.toList
    |>.u64 bytesDelivered |>.fixed transferDigest.toList |>.finish

def SettleReceipt.isValid (crypto : Crypto) (r : SettleReceipt) : Bool :=
  crypto.verify r.receiver
    (signingBytes r.channel r.receiver r.termsHash r.sessionNonce r.bytesDelivered r.transferDigest) r.signature

structure Skill where
  id : String
  description : String
  examples : List String
  deriving DecidableEq, Repr

structure AgentCard where
  holderPubkey : Key
  roleTags : List String
  skills : List Skill
  cells : List CellId
  channels : List ChannelId
  issuedAt : UnixSeconds
  expiresAt : UnixSeconds
  signature : Signature
  deriving DecidableEq, Repr

def writeString (p : Preimage) (s : String) : Preimage := p.varBytes (asBytes s)

def writeSkill (p : Preimage) (s : Skill) : Preimage :=
  s.examples.foldl writeString
    (p.varBytes (asBytes s.id) |>.varBytes (asBytes s.description) |>.u32 (.ofNat s.examples.length))

def writeArray (p : Preimage) (id : Vector UInt8 32) : Preimage := p.fixed id.toList

/- Four counted loops in a row; each starts from the buffer the one before left. -/
def AgentCard.signingBytes (holderPubkey : Key) (roleTags : List String) (skills : List Skill)
    (cells : List CellId) (channels : List ChannelId) (issuedAt expiresAt : UnixSeconds) : Bytes :=
  let p := Preimage.new (asBytes "ct-agent-card-v1")
    |>.fixed holderPubkey.toList |>.u32 (.ofNat roleTags.length)
  let p := roleTags.foldl writeString p |>.u32 (.ofNat skills.length)
  let p := skills.foldl writeSkill p |>.u32 (.ofNat cells.length)
  let p := cells.foldl writeArray p |>.u32 (.ofNat channels.length)
  channels.foldl writeArray p |>.u64 issuedAt |>.u64 expiresAt |>.finish

def AgentCard.isValid (crypto : Crypto) (c : AgentCard) (now : UnixSeconds) : Bool :=
  decide (now < c.expiresAt) && crypto.verify c.holderPubkey
    (signingBytes c.holderPubkey c.roleTags c.skills c.cells c.channels c.issuedAt c.expiresAt) c.signature

inductive CapacityKind where
  | cloudApiQuota
  | localHardware
  deriving DecidableEq, Repr

def CapacityKind.tag : CapacityKind → UInt8
  | .cloudApiQuota => 0
  | .localHardware => 1

inductive ServiceType where
  | codeGeneration
  | securityReview
  | safetyCheck
  | textGeneration
  | custom (name : String)
  deriving DecidableEq, Repr

def ServiceType.tag : ServiceType → UInt8
  | .codeGeneration => 0
  | .securityReview => 1
  | .safetyCheck => 2
  | .textGeneration => 3
  | .custom _ => 4

/- Only a custom service carries its name behind the tag byte. -/
def writeService (p : Preimage) (s : ServiceType) : Preimage :=
  match s with
  | .custom name => p.tag s.tag |>.varBytes (asBytes name)
  | _ => p.tag s.tag

structure CapacityOffer where
  holderPubkey : Key
  kind : CapacityKind
  models : List String
  unitsAvailable : UInt64
  minPrice : UInt64
  currencyId : String
  issuedAt : UnixSeconds
  expiresAt : UnixSeconds
  services : List ServiceType
  signature : Signature
  deriving DecidableEq, Repr

def CapacityOffer.signingBytes (holderPubkey : Key) (kind : CapacityKind) (models : List String)
    (unitsAvailable minPrice : UInt64) (currencyId : String) (issuedAt expiresAt : UnixSeconds)
    (services : List ServiceType) : Bytes :=
  let p := Preimage.new (asBytes "ct-capacity-offer-v1")
    |>.fixed holderPubkey.toList |>.tag kind.tag |>.u32 (.ofNat models.length)
  let p := models.foldl writeString p
    |>.u64 unitsAvailable |>.u64 minPrice |>.varBytes (asBytes currencyId) |>.u64 issuedAt |>.u64 expiresAt
    |>.u32 (.ofNat services.length)
  services.foldl writeService p |>.finish

def CapacityOffer.isValid (crypto : Crypto) (o : CapacityOffer) (now : UnixSeconds) : Bool :=
  decide (now < o.expiresAt) && crypto.verify o.holderPubkey
    (signingBytes o.holderPubkey o.kind o.models o.unitsAvailable o.minPrice o.currencyId o.issuedAt o.expiresAt
      o.services) o.signature

structure UsageReceipt where
  provider : Key
  consumer : Key
  kind : CapacityKind
  model : String
  unitsConsumed : UInt64
  matchRef : Hash
  issuedAt : UnixSeconds
  requestHash : Hash
  responseHash : Hash
  providerSig : Signature
  consumerSig : Signature
  deriving DecidableEq, Repr

def UsageReceipt.signingBytes (provider consumer : Key) (kind : CapacityKind) (model : String)
    (unitsConsumed : UInt64) (matchRef : Hash) (issuedAt : UnixSeconds) (requestHash responseHash : Hash) : Bytes :=
  Preimage.new (asBytes "ct-usage-receipt-v1")
    |>.fixed provider.toList |>.fixed consumer.toList |>.tag kind.tag |>.varBytes (asBytes model)
    |>.u64 unitsConsumed |>.fixed matchRef.toList |>.u64 issuedAt
    |>.fixed requestHash.toList |>.fixed responseHash.toList |>.finish

/- Both parties sign the same bytes; one signature alone proves nothing. -/
def UsageReceipt.isValid (crypto : Crypto) (r : UsageReceipt) : Bool :=
  let bytes := signingBytes r.provider r.consumer r.kind r.model r.unitsConsumed r.matchRef r.issuedAt
    r.requestHash r.responseHash
  crypto.verify r.provider bytes r.providerSig && crypto.verify r.consumer bytes r.consumerSig

inductive ProposalDecision where
  | accept
  | reject
  | counter
  deriving DecidableEq, Repr

def ProposalDecision.tag : ProposalDecision → UInt8
  | .accept => 0
  | .reject => 1
  | .counter => 2

structure SignedAcceptance where
  accepter : Key
  proposer : Key
  decision : ProposalDecision
  proposalHash : Hash
  requiresResponseBy : UnixSeconds
  accepterSig : Signature
  deriving DecidableEq, Repr

def SignedAcceptance.signingBytes (accepter proposer : Key) (decision : ProposalDecision) (proposalHash : Hash)
    (requiresResponseBy : UnixSeconds) : Bytes :=
  Preimage.new (asBytes "ct-proposal-acceptance-v1")
    |>.fixed accepter.toList |>.fixed proposer.toList |>.tag decision.tag |>.fixed proposalHash.toList
    |>.u64 requiresResponseBy |>.finish

def SignedAcceptance.isValid (crypto : Crypto) (a : SignedAcceptance) : Bool :=
  crypto.verify a.accepter
    (signingBytes a.accepter a.proposer a.decision a.proposalHash a.requiresResponseBy) a.accepterSig

structure CapacityBid where
  bidder : Key
  kind : CapacityKind
  model : String
  units : UInt64
  totalPrice : UInt64
  issuedAt : UnixSeconds
  expiresAt : UnixSeconds
  termsAck : Hash
  service : Option ServiceType
  signature : Signature
  deriving DecidableEq, Repr

def CapacityBid.signingBytes (bidder : Key) (kind : CapacityKind) (model : String) (units totalPrice : UInt64)
    (issuedAt expiresAt : UnixSeconds) (termsAck : Hash) (service : Option ServiceType) : Bytes :=
  let p := Preimage.new (asBytes "ct-capacity-bid-v1")
    |>.fixed bidder.toList |>.tag kind.tag |>.varBytes (asBytes model)
    |>.u64 units |>.u64 totalPrice |>.u64 issuedAt |>.u64 expiresAt |>.fixed termsAck.toList
  match service with
  | some s => writeService (p.tag 1) s |>.finish
  | none => p.tag 0 |>.finish

def CapacityBid.isValid (crypto : Crypto) (b : CapacityBid) (now : UnixSeconds) : Bool :=
  decide (now < b.expiresAt) && crypto.verify b.bidder
    (signingBytes b.bidder b.kind b.model b.units b.totalPrice b.issuedAt b.expiresAt b.termsAck b.service) b.signature

def credentialSigningBytes (tenant agent : String) (expiresAt : UnixSeconds) : Bytes :=
  Preimage.new (asBytes "ct-cred:v1")
    |>.varBytes (asBytes tenant) |>.varBytes (asBytes agent) |>.u64 expiresAt |>.finish

def agentBindingSigningBytes (tunnelId : String) (tokenHash : Hash) (agentPubkey : Key)
    (issuedAt expiresAt : UnixSeconds) : Bytes :=
  Preimage.new (asBytes "ct-agent-binding:v1")
    |>.varBytes (asBytes tunnelId) |>.fixed tokenHash.toList |>.fixed agentPubkey.toList
    |>.u64 issuedAt |>.u64 expiresAt |>.finish

def registrationChallengeBytes (nonce : Vector UInt8 32) (token : Bytes) : Bytes :=
  Preimage.new (asBytes "ct-agent-reg:v1") |>.fixed nonce.toList |>.varBytes token |>.finish

end ChannelObjects
end CadsTunnel
