import CadsTunnel.SettlementObjects

/-! Everything that is signed through the preimage builder, as one disjoint union:
a kind and the fields that kind covers. A preimage is the kind's domain behind its
length, followed by a body that delimits itself field by field, so equal preimages
come from the same kind and the same fields. -/
namespace CadsTunnel.Signing
open Words Delimited Preimage ChannelObjects Settlement

inductive Kind where
  | topologyOperator
  | memberNoiseAttest
  | membershipStaple
  | billingCommitment
  | settleReceipt
  | agentCard
  | capacityOffer
  | usageReceipt
  | signedAcceptance
  | capacityBid
  | credential
  | agentBinding
  | registrationChallenge
  | transfer
  | hold
  | vote
  | leaderAttestation
  deriving DecidableEq, Repr

namespace Kind

def all : List Kind :=
  [.topologyOperator,.memberNoiseAttest,.membershipStaple,.billingCommitment,.settleReceipt,.agentCard,.capacityOffer,
    .usageReceipt,.signedAcceptance,.capacityBid,.credential,.agentBinding,.registrationChallenge,.transfer,.hold,
    .vote,.leaderAttestation]

def domain : Kind → String
  | .topologyOperator => "ct-topology-operator-v1"
  | .memberNoiseAttest => "ct-a2a-noise-attest-v1"
  | .membershipStaple => "ct-membership-staple-v1"
  | .billingCommitment => "ct-billing-commitment-v1"
  | .settleReceipt => "ct-settle-receipt-v1"
  | .agentCard => "ct-agent-card-v1"
  | .capacityOffer => "ct-capacity-offer-v1"
  | .usageReceipt => "ct-usage-receipt-v1"
  | .signedAcceptance => "ct-proposal-acceptance-v1"
  | .capacityBid => "ct-capacity-bid-v1"
  | .credential => "ct-cred:v1"
  | .agentBinding => "ct-agent-binding:v1"
  | .registrationChallenge => "ct-agent-reg:v1"
  | .transfer => "ct-settlement-transfer-v1"
  | .hold => "ct-settlement-hold-v1"
  | .vote => "ct-settlement-vote-v1"
  | .leaderAttestation => "ct-settlement-leader-block-v1"

theorem memAll (k : Kind) : k ∈ all := by
  cases k <;> decide

theorem domainInjective : Function.Injective domain := by
  have distinct : (all.map domain).Nodup := by decide
  intro j k same
  exact List.inj_on_of_nodup_map distinct (memAll j) (memAll k) same

theorem domainShort (k : Kind) : Short (asBytes k.domain) := by
  have short : ∀ k ∈ all, (asBytes k.domain).length < 2 ^ 32 := by decide
  exact short k (memAll k)

end Kind

/- The signed fields of each kind, in the order its preimage writes them. -/
def Fields : Kind → Type
  | .topologyOperator => String × Key
  | .memberNoiseAttest => ChannelId × Key × Key
  | .membershipStaple => ChannelId × Key × UnixSeconds × UnixSeconds
  | .billingCommitment => ChannelId × Key × Key × Hash × UInt64 × UnixSeconds
  | .settleReceipt => ChannelId × Key × Hash × Vector UInt8 32 × UInt64 × Hash
  | .agentCard => Key × List String × List Skill × List CellId × List ChannelId × UnixSeconds × UnixSeconds
  | .capacityOffer =>
    Key × CapacityKind × List String × UInt64 × UInt64 × String × UnixSeconds × UnixSeconds × List ServiceType
  | .usageReceipt => Key × Key × CapacityKind × String × UInt64 × Hash × UnixSeconds × Hash × Hash
  | .signedAcceptance => Key × Key × ProposalDecision × Hash × UnixSeconds
  | .capacityBid => Key × CapacityKind × String × UInt64 × UInt64 × UnixSeconds × UnixSeconds × Hash × Option ServiceType
  | .credential => String × String × UnixSeconds
  | .agentBinding => String × Hash × Key × UnixSeconds × UnixSeconds
  | .registrationChallenge => Vector UInt8 32 × Bytes
  | .transfer => Account × Account × Amount × UInt64
  | .hold => Account × Account × Amount × Hash × UInt64 × UInt64
  | .vote => UInt64 × Account × Account
  | .leaderAttestation => UInt64 × Account × Hash

abbrev Signed := Σ k : Kind, Fields k

def signingBytes : Signed → Bytes
  | ⟨.topologyOperator,topologyId,operatorPubkey⟩ => topologyOperatorBindingBytes topologyId operatorPubkey
  | ⟨.memberNoiseAttest,channel,holder,noisePubkey⟩ => memberNoiseAttestBytes channel holder noisePubkey
  | ⟨.membershipStaple,channel,holder,stapledAt,expiresAt⟩ =>
    MembershipStaple.signingBytes channel holder stapledAt expiresAt
  | ⟨.billingCommitment,channel,holder,payee,termsHash,maxAmount,expiresAt⟩ =>
    BillingCommitment.signingBytes channel holder payee termsHash maxAmount expiresAt
  | ⟨.settleReceipt,channel,receiver,termsHash,sessionNonce,bytesDelivered,transferDigest⟩ =>
    SettleReceipt.signingBytes channel receiver termsHash sessionNonce bytesDelivered transferDigest
  | ⟨.agentCard,holderPubkey,roleTags,skills,cells,channels,issuedAt,expiresAt⟩ =>
    AgentCard.signingBytes holderPubkey roleTags skills cells channels issuedAt expiresAt
  | ⟨.capacityOffer,holderPubkey,kind,models,unitsAvailable,minPrice,currencyId,issuedAt,expiresAt,services⟩ =>
    CapacityOffer.signingBytes holderPubkey kind models unitsAvailable minPrice currencyId issuedAt expiresAt services
  | ⟨.usageReceipt,provider,consumer,kind,model,unitsConsumed,matchRef,issuedAt,requestHash,responseHash⟩ =>
    UsageReceipt.signingBytes provider consumer kind model unitsConsumed matchRef issuedAt requestHash responseHash
  | ⟨.signedAcceptance,accepter,proposer,decision,proposalHash,requiresResponseBy⟩ =>
    SignedAcceptance.signingBytes accepter proposer decision proposalHash requiresResponseBy
  | ⟨.capacityBid,bidder,kind,model,units,totalPrice,issuedAt,expiresAt,termsAck,service⟩ =>
    CapacityBid.signingBytes bidder kind model units totalPrice issuedAt expiresAt termsAck service
  | ⟨.credential,tenant,agent,expiresAt⟩ => credentialSigningBytes tenant agent expiresAt
  | ⟨.agentBinding,tunnelId,tokenHash,agentPubkey,issuedAt,expiresAt⟩ =>
    agentBindingSigningBytes tunnelId tokenHash agentPubkey issuedAt expiresAt
  | ⟨.registrationChallenge,nonce,token⟩ => registrationChallengeBytes nonce token
  | ⟨.transfer,sender,recipient,amount,nonce⟩ => Transfer.signingBytes sender recipient amount nonce
  | ⟨.hold,sender,recipient,amount,matchRef,nonce,expiresAt⟩ =>
    Hold.signingBytes sender recipient amount matchRef nonce expiresAt
  | ⟨.vote,term,candidate,voter⟩ => Vote.signingBytes term candidate voter
  | ⟨.leaderAttestation,term,leader,blockHash⟩ => LeaderAttestation.signingBytes term leader blockHash

/- The encoders of the single fields. -/

def raw (v : Vector UInt8 32) : Bytes := v.toList
def text (s : String) : Bytes := delimited (asBytes s)
def wideText (s : String) : Bytes := le 8 (asBytes s).length ++ asBytes s
def kindByte (k : CapacityKind) : Bytes := [k.tag]
def decisionByte (d : ProposalDecision) : Bytes := [d.tag]

def service : ServiceType → Bytes
  | .custom name => 4 :: text name
  | s => [s.tag]

def skillFields (s : Skill) : String × String × List String := (s.id,s.description,s.examples)

def skill (s : Skill) : Bytes := both text (both text (counted text)) (skillFields s)

def body : (k : Kind) → Fields k → Bytes
  | .topologyOperator => both wideText raw
  | .memberNoiseAttest => both raw (both raw raw)
  | .membershipStaple => both raw (both raw (both u64LE u64LE))
  | .billingCommitment => both raw (both raw (both raw (both raw (both u64LE u64LE))))
  | .settleReceipt => both raw (both raw (both raw (both raw (both u64LE raw))))
  | .agentCard =>
    both raw (both (counted text) (both (counted skill) (both (counted raw) (both (counted raw) (both u64LE u64LE)))))
  | .capacityOffer =>
    both raw (both kindByte (both (counted text) (both u64LE (both u64LE (both text (both u64LE (both u64LE
      (counted service))))))))
  | .usageReceipt =>
    both raw (both raw (both kindByte (both text (both u64LE (both raw (both u64LE (both raw raw)))))))
  | .signedAcceptance => both raw (both raw (both decisionByte (both raw u64LE)))
  | .capacityBid =>
    both raw (both kindByte (both text (both u64LE (both u64LE (both u64LE (both u64LE (both raw (marked service))))))))
  | .credential => both text (both text u64LE)
  | .agentBinding => both text (both raw (both raw (both u64LE u64LE)))
  | .registrationChallenge => both raw delimited
  | .transfer => both raw (both raw (both u64LE u64LE))
  | .hold => both raw (both raw (both u64LE (both raw (both u64LE u64LE))))
  | .vote => both u64LE (both raw raw)
  | .leaderAttestation => both u64LE (both raw raw)

theorem writesText (p : Preimage) (s : String) : (writeString p s).buf = p.buf ++ text s := bufVarBytes p (asBytes s)

theorem writesRaw (p : Preimage) (v : Vector UInt8 32) : (writeArray p v).buf = p.buf ++ raw v := rfl

theorem writesSkill (p : Preimage) (s : Skill) : (writeSkill p s).buf = p.buf ++ skill s := by
  rw [writeSkill, bufCounted text writeString writesText]
  simp [skill, skillFields, both, text]

theorem writesService (p : Preimage) (s : ServiceType) : (writeService p s).buf = p.buf ++ service s := by
  cases s with
  | custom name => simp [writeService, service, ServiceType.tag, text]
  | _ => rfl

theorem wideLength (raw : Bytes) : u64LE (.ofNat raw.length) = le 8 raw.length := by
  rw [u64LE, UInt64.toNat_ofNat']
  exact leMod 8 raw.length

theorem signingBody (x : Signed) : signingBytes x = delimited (asBytes x.1.domain) ++ body x.1 x.2 := by
  obtain ⟨k,fields⟩ := x
  cases k with
  | topologyOperator =>
    obtain ⟨topologyId,operatorPubkey⟩ := fields
    simp [signingBytes, topologyOperatorBindingBytes, body, both, wideText, raw, finish, Kind.domain, wideLength]
  | agentCard =>
    obtain ⟨holderPubkey,roleTags,skills,cells,channels,issuedAt,expiresAt⟩ := fields
    simp [signingBytes, AgentCard.signingBytes, body, both, raw, finish, Kind.domain, bufCounted text writeString writesText,
      bufCounted skill writeSkill writesSkill, bufCounted raw writeArray writesRaw]
  | capacityOffer =>
    obtain ⟨holderPubkey,kind,models,unitsAvailable,minPrice,currencyId,issuedAt,expiresAt,services⟩ := fields
    simp [signingBytes, CapacityOffer.signingBytes, body, both, raw, kindByte, text, finish, Kind.domain,
      bufCounted text writeString writesText, bufCounted service writeService writesService]
  | capacityBid =>
    obtain ⟨bidder,kind,model,units,totalPrice,issuedAt,expiresAt,termsAck,chosen⟩ := fields
    cases chosen with
    | none => simp [signingBytes, CapacityBid.signingBytes, body, both, raw, kindByte, text, marked, finish, Kind.domain]
    | some s =>
      simp [signingBytes, CapacityBid.signingBytes, body, both, raw, kindByte, text, marked, finish, Kind.domain,
        writesService]
  | memberNoiseAttest =>
    obtain ⟨channel,holder,noisePubkey⟩ := fields
    simp [signingBytes, memberNoiseAttestBytes, body, both, raw, finish, Kind.domain]
  | membershipStaple =>
    obtain ⟨channel,holder,stapledAt,expiresAt⟩ := fields
    simp [signingBytes, MembershipStaple.signingBytes, body, both, raw, finish, Kind.domain]
  | billingCommitment =>
    obtain ⟨channel,holder,payee,termsHash,maxAmount,expiresAt⟩ := fields
    simp [signingBytes, BillingCommitment.signingBytes, body, both, raw, finish, Kind.domain]
  | settleReceipt =>
    obtain ⟨channel,receiver,termsHash,sessionNonce,bytesDelivered,transferDigest⟩ := fields
    simp [signingBytes, SettleReceipt.signingBytes, body, both, raw, finish, Kind.domain]
  | usageReceipt =>
    obtain ⟨provider,consumer,kind,model,unitsConsumed,matchRef,issuedAt,requestHash,responseHash⟩ := fields
    simp [signingBytes, UsageReceipt.signingBytes, body, both, raw, kindByte, text, finish, Kind.domain]
  | signedAcceptance =>
    obtain ⟨accepter,proposer,decision,proposalHash,requiresResponseBy⟩ := fields
    simp [signingBytes, SignedAcceptance.signingBytes, body, both, raw, decisionByte, finish, Kind.domain]
  | credential =>
    obtain ⟨tenant,agent,expiresAt⟩ := fields
    simp [signingBytes, credentialSigningBytes, body, both, text, finish, Kind.domain]
  | agentBinding =>
    obtain ⟨tunnelId,tokenHash,agentPubkey,issuedAt,expiresAt⟩ := fields
    simp [signingBytes, agentBindingSigningBytes, body, both, raw, text, finish, Kind.domain]
  | registrationChallenge =>
    obtain ⟨nonce,token⟩ := fields
    simp [signingBytes, registrationChallengeBytes, body, both, raw, finish, Kind.domain]
  | transfer =>
    obtain ⟨sender,recipient,amount,nonce⟩ := fields
    simp [signingBytes, Transfer.signingBytes, body, both, raw, finish, Kind.domain]
  | hold =>
    obtain ⟨sender,recipient,amount,matchRef,nonce,expiresAt⟩ := fields
    simp [signingBytes, Hold.signingBytes, body, both, raw, finish, Kind.domain]
  | vote =>
    obtain ⟨term,candidate,voter⟩ := fields
    simp [signingBytes, Vote.signingBytes, body, both, raw, finish, Kind.domain]
  | leaderAttestation =>
    obtain ⟨term,leader,blockHash⟩ := fields
    simp [signingBytes, LeaderAttestation.signingBytes, body, both, raw, finish, Kind.domain]

/- Every length that a preimage writes fits its prefix. -/

def ShortText (s : String) : Prop := Short (asBytes s)

def ShortList {α : Type} (good : α → Prop) (xs : List α) : Prop := xs.length < 2 ^ 32 ∧ ∀ x ∈ xs, good x

def ShortService : ServiceType → Prop
  | .custom name => ShortText name
  | _ => True

def ShortSkill (s : Skill) : Prop := ShortText s.id ∧ ShortText s.description ∧ ShortList ShortText s.examples

def ShortFields : (k : Kind) → Fields k → Prop
  | .topologyOperator, (topologyId,_) => ShortText topologyId
  | .agentCard, (_,roleTags,skills,cells,channels,_,_) =>
    ShortList ShortText roleTags ∧ ShortList ShortSkill skills ∧ ShortList Everything cells ∧ ShortList Everything channels
  | .capacityOffer, (_,_,models,_,_,currencyId,_,_,services) =>
    ShortList ShortText models ∧ ShortText currencyId ∧ ShortList ShortService services
  | .usageReceipt, (_,_,_,model,_) => ShortText model
  | .capacityBid, (_,_,model,_,_,_,_,_,chosen) => ShortText model ∧ ∀ s ∈ chosen, ShortService s
  | .credential, (tenant,agent,_) => ShortText tenant ∧ ShortText agent
  | .agentBinding, (tunnelId,_) => ShortText tunnelId
  | .registrationChallenge, (_,token) => Short token
  | _, _ => True

theorem rawDelimits : Delimits Everything raw := arrayDelimits 32

theorem textDelimits : Delimits ShortText text := delimitedDelimits.comap asBytes asBytesInjective

theorem wideTextDelimits : Delimits ShortText wideText := by
  refine ((prefixedDelimits 8).comap asBytes asBytesInjective).mono ?_
  intro s short
  exact Nat.lt_trans short (by decide)

theorem kindDelimits : Delimits Everything kindByte := by
  refine byteDelimits ?_
  intro a b
  cases a <;> cases b <;> decide

theorem decisionDelimits : Delimits Everything decisionByte := by
  refine byteDelimits ?_
  intro a b
  cases a <;> cases b <;> decide

theorem skillDelimits : Delimits ShortSkill skill := by
  refine (textDelimits.both (textDelimits.both (countedDelimits textDelimits))).comap skillFields ?_
  intro skill other same
  obtain ⟨id,description,examples⟩ := skill
  obtain ⟨id',description',examples'⟩ := other
  simpa [skillFields] using same

theorem serviceHead (s : ServiceType) : ∃ rest, service s = s.tag :: rest := by
  cases s <;> exact ⟨_,rfl⟩

/- The tag says whether a name follows. -/
theorem serviceDelimits : Delimits ShortService service := by
  intro a b left right r s same
  have tags : a.tag = b.tag := by
    obtain ⟨_,first⟩ := serviceHead a
    obtain ⟨_,second⟩ := serviceHead b
    rw [first, second] at same
    exact (List.cons.inj same).1
  cases a with
  | custom name =>
    cases b with
    | custom name' =>
      simp only [service, List.cons_append, List.cons.injEq, true_and] at same
      obtain ⟨rfl,tails⟩ := textDelimits left right same
      exact ⟨rfl,tails⟩
    | _ => simp [ServiceType.tag] at tags
  | _ =>
    cases b with
    | custom name' => simp [ServiceType.tag] at tags
    | _ => first
      | exact ⟨rfl,(List.cons.inj same).2⟩
      | simp [ServiceType.tag] at tags

theorem bodyDelimits (k : Kind) : Delimits (ShortFields k) (body k) := by
  have word := u64Delimits
  have texts := countedDelimits textDelimits
  have raws := countedDelimits rawDelimits
  cases k with
  | topologyOperator =>
    exact (wideTextDelimits.both rawDelimits).mono fun _ short => ⟨short,trivial⟩
  | memberNoiseAttest =>
    exact (rawDelimits.both (rawDelimits.both rawDelimits)).mono fun _ _ => ⟨trivial,trivial,trivial⟩
  | membershipStaple =>
    exact (rawDelimits.both (rawDelimits.both (word.both word))).mono fun _ _ => ⟨trivial,trivial,trivial,trivial⟩
  | billingCommitment =>
    exact (rawDelimits.both (rawDelimits.both (rawDelimits.both (rawDelimits.both (word.both word))))).mono
      fun _ _ => ⟨trivial,trivial,trivial,trivial,trivial,trivial⟩
  | settleReceipt =>
    exact (rawDelimits.both (rawDelimits.both (rawDelimits.both (rawDelimits.both (word.both rawDelimits))))).mono
      fun _ _ => ⟨trivial,trivial,trivial,trivial,trivial,trivial⟩
  | agentCard =>
    exact (rawDelimits.both (texts.both ((countedDelimits skillDelimits).both (raws.both (raws.both
      (word.both word)))))).mono fun _ ⟨tags,skills,cells,channels⟩ => ⟨trivial,tags,skills,cells,channels,trivial,trivial⟩
  | capacityOffer =>
    exact (rawDelimits.both (kindDelimits.both (texts.both (word.both (word.both (textDelimits.both (word.both (word.both
      (countedDelimits serviceDelimits))))))))).mono fun _ ⟨models,currency,services⟩ =>
        ⟨trivial,trivial,models,trivial,trivial,currency,trivial,trivial,services⟩
  | usageReceipt =>
    exact (rawDelimits.both (rawDelimits.both (kindDelimits.both (textDelimits.both (word.both (rawDelimits.both (word.both
      (rawDelimits.both rawDelimits)))))))).mono fun _ short =>
        ⟨trivial,trivial,trivial,short,trivial,trivial,trivial,trivial,trivial⟩
  | signedAcceptance =>
    exact (rawDelimits.both (rawDelimits.both (decisionDelimits.both (rawDelimits.both word)))).mono
      fun _ _ => ⟨trivial,trivial,trivial,trivial,trivial⟩
  | capacityBid =>
    exact (rawDelimits.both (kindDelimits.both (textDelimits.both (word.both (word.both (word.both (word.both
      (rawDelimits.both serviceDelimits.marked)))))))).mono fun _ ⟨model,chosen⟩ =>
        ⟨trivial,trivial,model,trivial,trivial,trivial,trivial,trivial,chosen⟩
  | credential =>
    exact (textDelimits.both (textDelimits.both word)).mono fun _ ⟨tenant,agent⟩ => ⟨tenant,agent,trivial⟩
  | agentBinding =>
    exact (textDelimits.both (rawDelimits.both (rawDelimits.both (word.both word)))).mono
      fun _ short => ⟨short,trivial,trivial,trivial,trivial⟩
  | registrationChallenge =>
    exact (rawDelimits.both delimitedDelimits).mono fun _ short => ⟨trivial,short⟩
  | transfer =>
    exact (rawDelimits.both (rawDelimits.both (word.both word))).mono fun _ _ => ⟨trivial,trivial,trivial,trivial⟩
  | hold =>
    exact (rawDelimits.both (rawDelimits.both (word.both (rawDelimits.both (word.both word))))).mono
      fun _ _ => ⟨trivial,trivial,trivial,trivial,trivial,trivial⟩
  | vote =>
    exact (word.both (rawDelimits.both rawDelimits)).mono fun _ _ => ⟨trivial,trivial,trivial⟩
  | leaderAttestation =>
    exact (word.both (rawDelimits.both rawDelimits)).mono fun _ _ => ⟨trivial,trivial,trivial⟩

theorem signingDomainsDisjoint (x y : Signed) (left : ShortFields x.1 x.2) (right : ShortFields y.1 y.2)
    (same : signingBytes x = signingBytes y) : x = y := by
  obtain ⟨j,a⟩ := x
  obtain ⟨k,b⟩ := y
  rw [signingBody, signingBody] at same
  obtain ⟨domains,bodies⟩ := delimitedDelimits j.domainShort k.domainShort same
  obtain rfl := Kind.domainInjective (asBytesInjective domains)
  exact congrArg (Sigma.mk j) ((bodyDelimits j).injective left right bodies)

/- A bid for a named service, and the same bid read back from its fields. -/
def auditBid : Fields .capacityBid :=
  (.replicate 32 1,.localHardware,"model",10,25,100,200,.replicate 32 2,some (.custom "audit"))
def auditBidAgain : Fields .capacityBid :=
  (auditBid.1,.localHardware,"mo" ++ "del",5 + 5,25,100,200,.replicate 32 2,some (.custom ("au" ++ "dit")))

theorem auditBidSignedOnce :
    signingBytes ⟨.capacityBid,auditBid⟩ = signingBytes ⟨.capacityBid,auditBidAgain⟩ ∧
    (⟨.capacityBid,auditBid⟩ : Signed) = ⟨.capacityBid,auditBidAgain⟩ := by
  have model : (asBytes "model").length < 2 ^ 32 := by decide +kernel
  have name : (asBytes "audit").length < 2 ^ 32 := by decide +kernel
  have short : ShortText "model" ∧ ∀ s ∈ some (ServiceType.custom "audit"), ShortService s := by
    refine ⟨model,fun s mem => ?_⟩
    cases mem
    exact name
  have same : signingBytes ⟨.capacityBid,auditBid⟩ = signingBytes ⟨.capacityBid,auditBidAgain⟩ := by decide +kernel
  exact ⟨same,signingDomainsDisjoint _ _ short short same⟩

end CadsTunnel.Signing
