import CadsTunnel.SettlementWire

/-! The wire forms of membership: grants, join requests, staples, invitations and credentials.
All but the join request end where their fields end; a join request ends with its endpoint,
which takes every byte that is left. -/
namespace CadsTunnel.MembershipWire
open Words Slices ChannelObjects

inductive Direction where
  | initiate
  | accept
  | both
  deriving DecidableEq, Repr

def Direction.asByte : Direction → UInt8
  | .initiate => 1
  | .accept => 2
  | .both => 3

def Direction.fromByte (b : UInt8) : Option Direction :=
  if b = 1 then some .initiate else if b = 2 then some .accept else if b = 3 then some .both else none

inductive Rights where
  | read
  | write
  | readWrite
  deriving DecidableEq, Repr

def Rights.asByte : Rights → UInt8
  | .read => 1
  | .write => 2
  | .readWrite => 3

def Rights.fromByte (b : UInt8) : Option Rights :=
  if b = 1 then some .read else if b = 2 then some .write else if b = 3 then some .readWrite else none

def delegableByte (delegable : Bool) : UInt8 := if delegable then 1 else 0

def delegableFrom (b : UInt8) : Option Bool := if b = 0 then some false else if b = 1 then some true else none

/- A decoder that refuses bytes it has left over. -/
def whole {α : Type} (read : Cursor α) (bytes : Bytes) : Attempt α := do
  let answer ← read.run bytes
  if !answer.2.isEmpty then failure else return answer.1

structure ChannelGrant where
  channel : ChannelId
  holder : Key
  direction : Direction
  rights : Rights
  delegable : Bool
  expiresAt : UnixSeconds
  deriving DecidableEq, Repr

structure SignedChannelGrant where
  grant : ChannelGrant
  signature : Signature
  deriving DecidableEq, Repr

structure ChannelInvitation where
  channel : ChannelId
  inviteeIdentity : Key
  direction : Direction
  rights : Rights
  delegable : Bool
  expiresAt : UnixSeconds
  deriving DecidableEq, Repr

structure SignedChannelInvitation where
  invitation : ChannelInvitation
  signature : Signature
  deriving DecidableEq, Repr

/- The layout that grants and invitations have in common. -/
def claimBytes (signature : Signature) (channel : ChannelId) (key : Key) (direction : Direction) (rights : Rights) (delegable : Bool)
    (expiresAt : UnixSeconds) : Bytes :=
  signature.toList ++ channel.toList ++ key.toList ++ [direction.asByte] ++ [rights.asByte] ++ [delegableByte delegable] ++ u64LE expiresAt

def readClaims {α : Type} (build : Signature → ChannelId → Key → Direction → Rights → Bool → UnixSeconds → α) : Cursor α := do
  let signature ← array 64 (← take 64)
  let channel ← array 32 (← take 32)
  let key ← array 32 (← take 32)
  let direction ← ofOption (Direction.fromByte (← index (← take 1) 0))
  let rights ← ofOption (Rights.fromByte (← index (← take 1) 0))
  let delegable ← ofOption (delegableFrom (← index (← take 1) 0))
  let expiresAt := UInt64.ofNat (fromLeBytes (← array 8 (← take 8)))
  return build signature channel key direction rights delegable expiresAt

namespace SignedChannelGrant

def wireLen : Nat := 64 + 32 + 32 + 1 + 1 + 1 + 8

def encode (s : SignedChannelGrant) : Bytes :=
  claimBytes s.signature s.grant.channel s.grant.holder s.grant.direction s.grant.rights s.grant.delegable s.grant.expiresAt

def decode : Bytes → Attempt SignedChannelGrant :=
  whole (readClaims fun signature channel holder direction rights delegable expiresAt =>
    ⟨⟨channel,holder,direction,rights,delegable,expiresAt⟩,signature⟩)

end SignedChannelGrant

namespace SignedChannelInvitation

def wireLen : Nat := 64 + 32 + 32 + 1 + 1 + 1 + 8

def encode (s : SignedChannelInvitation) : Bytes :=
  claimBytes s.signature s.invitation.channel s.invitation.inviteeIdentity s.invitation.direction s.invitation.rights s.invitation.delegable
    s.invitation.expiresAt

def decode : Bytes → Attempt SignedChannelInvitation :=
  whole (readClaims fun signature channel inviteeIdentity direction rights delegable expiresAt =>
    ⟨⟨channel,inviteeIdentity,direction,rights,delegable,expiresAt⟩,signature⟩)

end SignedChannelInvitation

structure ChannelJoinRequest where
  grant : SignedChannelGrant
  endpoint : String
  deriving DecidableEq, Repr

namespace ChannelJoinRequest

def encode (r : ChannelJoinRequest) : Bytes := r.grant.encode ++ asBytes r.endpoint

def decode (bytes : Bytes) : Attempt ChannelJoinRequest := do
  if bytes.length ≤ SignedChannelGrant.wireLen then failure
  else
    let (grantBytes,endpointBytes) ← splitAt bytes SignedChannelGrant.wireLen
    let grant ← SignedChannelGrant.decode grantBytes
    let endpoint ← ofOption (fromUtf8 endpointBytes)
    if endpoint.isEmpty then failure else return ⟨grant,endpoint⟩

end ChannelJoinRequest

namespace MembershipStaple

def wireLen : Nat := 64 + 32 + 32 + 8 + 8

def encode (s : MembershipStaple) : Bytes :=
  s.signature.toList ++ s.channel.toList ++ s.holder.toList ++ u64LE s.stapledAt ++ u64LE s.expiresAt

def read : Cursor MembershipStaple := do
  let signature ← array 64 (← take 64)
  let channel ← array 32 (← take 32)
  let holder ← array 32 (← take 32)
  let stapledAt := UInt64.ofNat (fromLeBytes (← array 8 (← take 8)))
  let expiresAt := UInt64.ofNat (fromLeBytes (← array 8 (← take 8)))
  return { channel, holder, stapledAt, expiresAt, signature }

def decode : Bytes → Attempt MembershipStaple := whole read

end MembershipStaple

structure Credential where
  tenant : String
  agent : String
  expiresAt : UnixSeconds
  deriving DecidableEq, Repr

structure SignedCredential where
  credential : Credential
  signature : Signature
  deriving DecidableEq, Repr

namespace SignedCredential

def encode (s : SignedCredential) : Bytes :=
  s.signature.toList ++ u32LE (.ofNat (asBytes s.credential.tenant).length) ++ asBytes s.credential.tenant ++
    u32LE (.ofNat (asBytes s.credential.agent).length) ++ asBytes s.credential.agent ++ u64LE s.credential.expiresAt

def read : Cursor SignedCredential := do
  let signature ← array 64 (← take 64)
  let tenantLen := fromLeBytes (← array 4 (← take 4))
  let tenant ← ofOption (fromUtf8 (← take tenantLen))
  let agentLen := fromLeBytes (← array 4 (← take 4))
  let agent ← ofOption (fromUtf8 (← take agentLen))
  let expiresAt := UInt64.ofNat (fromLeBytes (← array 8 (← take 8)))
  return ⟨⟨tenant,agent,expiresAt⟩,signature⟩

def decode : Bytes → Attempt SignedCredential := whole read

/- The two texts fit their length fields. -/
def Short (s : SignedCredential) : Prop := (asBytes s.credential.tenant).length < 2 ^ 32 ∧ (asBytes s.credential.agent).length < 2 ^ 32

end SignedCredential

section Cursors
variable {α : Type} {read : Cursor α} {encode : α → Bytes} {good : α → Prop}

/- What a cursor reads is in front of what it leaves, and what is in front it reads. -/
structure Fronts (good : α → Prop) (encode : α → Bytes) (read : Cursor α) : Prop where
  reads : ∀ cur, Reads read cur (fun a rest => good a ∧ cur = encode a ++ rest)
  back : ∀ a rest, good a → read.run (encode a ++ rest) = pure (a,rest)

theorem wholeAnswers (fronts : Fronts good encode read) (bytes : Bytes) :
    Answers False (whole read bytes) (fun a => good a ∧ encode a = bytes) := by
  refine Answers.bind (fronts.reads bytes) ?_
  intro answer front
  split
  case isTrue => exact .failure not_false
  case isFalse empty =>
    have nothing : answer.2 = [] := by simpa using empty
    exact .pure ⟨front.1,by rw [front.2, nothing, List.append_nil]⟩

theorem wholeFront (fronts : Fronts good encode read) {a : α} (fine : good a) (rest : Bytes) :
    whole read (encode a ++ rest) = if rest.isEmpty then pure a else failure := by
  have run := fronts.back a rest fine
  rw [whole, run, pure_bind]
  cases rest with
  | nil => rfl
  | cons b rest => rfl

theorem wholeCanonical (fronts : Fronts good encode read) : Canonical good encode (whole read) := by
  refine Canonical.ofAnswers ?_ (fun bytes => (wholeAnswers fronts bytes).mono id (fun _ both => both.2))
  intro a fine
  have front := wholeFront fronts fine []
  rwa [List.append_nil] at front

/- What decodes is good, and with bytes behind it no longer decodes. -/
theorem wholeGood (fronts : Fronts good encode read) {bytes : Bytes} {a : α} (decoded : whole read bytes = pure a) : good a ∧ encode a = bytes := by
  obtain ⟨answer,run,holds,_⟩ := wholeAnswers fronts bytes
  have value : answer = some a := Except.ok.inj (run.symm.trans (congrArg OptionT.run decoded))
  exact holds a value

theorem wholeEnds (fronts : Fronts good encode read) {bytes more : Bytes} {a b : α} (decoded : whole read bytes = pure a)
    (longer : whole read (bytes ++ more) = pure b) : more = [] := by
  obtain ⟨fine,same⟩ := wholeGood fronts decoded
  rw [← same, wholeFront fronts fine] at longer
  cases more with
  | nil => rfl
  | cons first rest => exact absurd (congrArg OptionT.run longer) (by simp [OptionT.run, failure, pure, OptionT.pure, OptionT.mk, OptionT.fail, Except.pure])

end Cursors

section Fields

theorem directionKnown (b : UInt8) (d : Direction) (known : Direction.fromByte b = some d) : d.asByte = b := by
  unfold Direction.fromByte at known
  split at known
  case isTrue one => cases known; exact one.symm
  case isFalse =>
    split at known
    case isTrue two => cases known; exact two.symm
    case isFalse =>
      split at known <;> try contradiction
      rename_i three
      cases known
      exact three.symm

theorem rightsKnown (b : UInt8) (r : Rights) (known : Rights.fromByte b = some r) : r.asByte = b := by
  unfold Rights.fromByte at known
  split at known
  case isTrue one => cases known; exact one.symm
  case isFalse =>
    split at known
    case isTrue two => cases known; exact two.symm
    case isFalse =>
      split at known <;> try contradiction
      rename_i three
      cases known
      exact three.symm

theorem delegableKnown (b : UInt8) (d : Bool) (known : delegableFrom b = some d) : delegableByte d = b := by
  unfold delegableFrom at known
  split at known
  case isTrue zero => cases known; exact zero.symm
  case isFalse =>
    split at known <;> try contradiction
    rename_i one
    cases known
    exact one.symm

theorem directionBack (d : Direction) : Direction.fromByte d.asByte = some d := by cases d <;> rfl

theorem rightsBack (r : Rights) : Rights.fromByte r.asByte = some r := by cases r <;> rfl

theorem delegableBack (d : Bool) : delegableFrom (delegableByte d) = some d := by cases d <;> rfl

end Fields

section Claims
variable {α : Type} {build : Signature → ChannelId → Key → Direction → Rights → Bool → UnixSeconds → α} {encode : α → Bytes}

theorem claimFronts (writes : ∀ s c k d r g e, encode (build s c k d r g e) = claimBytes s c k d r g e)
    (built : ∀ a, ∃ s c k d r g e, a = build s c k d r g e) : Fronts (fun _ => True) encode (readClaims build) := by
  constructor
  · intro cur
    unfold readClaims
    refine takeArray ?_
    intro signature cur first
    refine takeArray ?_
    intro channel cur second
    refine takeArray ?_
    intro key cur third
    refine takeByte directionKnown ?_
    intro direction cur fourth
    refine takeByte rightsKnown ?_
    intro rights cur fifth
    refine takeByte delegableKnown ?_
    intro delegable cur sixth
    refine takeArray ?_
    intro expiresAt cur seventh
    refine Reads.pure ⟨trivial,?_⟩
    simp only [writes, claimBytes, u64LEFromLeBytes, List.append_assoc, List.cons_append, List.nil_append]
    rw [first, second, third, fourth, fifth, sixth, seventh]
  · intro a rest _
    obtain ⟨signature,channel,key,direction,rights,delegable,expiresAt,rfl⟩ := built a
    simp only [writes, claimBytes, u64LE, ← toLeBytesList, List.append_assoc]
    unfold readClaims
    refine (takeArrayFront _ _ _).trans ?_
    refine (takeArrayFront _ _ _).trans ?_
    refine (takeArrayFront _ _ _).trans ?_
    refine (takeByteFront _ (directionBack _) _ _).trans ?_
    refine (takeByteFront _ (rightsBack _) _ _).trans ?_
    refine (takeByteFront _ (delegableBack _) _ _).trans ?_
    refine (takeArrayFront _ _ _).trans ?_
    simp only [u64FromLeToLe]
    rfl

end Claims

theorem grantFronts : Fronts (fun _ => True) SignedChannelGrant.encode (readClaims fun signature channel holder direction rights delegable expiresAt =>
    (⟨⟨channel,holder,direction,rights,delegable,expiresAt⟩,signature⟩ : SignedChannelGrant)) :=
  claimFronts (fun _ _ _ _ _ _ _ => rfl) (fun _ => ⟨_,_,_,_,_,_,_,rfl⟩)

theorem invitationFronts : Fronts (fun _ => True) SignedChannelInvitation.encode
    (readClaims fun signature channel inviteeIdentity direction rights delegable expiresAt =>
      (⟨⟨channel,inviteeIdentity,direction,rights,delegable,expiresAt⟩,signature⟩ : SignedChannelInvitation)) :=
  claimFronts (fun _ _ _ _ _ _ _ => rfl) (fun _ => ⟨_,_,_,_,_,_,_,rfl⟩)

theorem stapleFronts : Fronts (fun _ => True) MembershipStaple.encode MembershipStaple.read := by
  constructor
  · intro cur
    unfold MembershipStaple.read
    refine takeArray ?_
    intro signature cur first
    refine takeArray ?_
    intro channel cur second
    refine takeArray ?_
    intro holder cur third
    refine takeArray ?_
    intro stapledAt cur fourth
    refine takeArray ?_
    intro expiresAt cur fifth
    refine Reads.pure ⟨trivial,?_⟩
    simp only [MembershipStaple.encode, u64LEFromLeBytes, List.append_assoc]
    rw [first, second, third, fourth, fifth]
  · intro staple rest _
    simp only [MembershipStaple.encode, u64LE, ← toLeBytesList, List.append_assoc]
    unfold MembershipStaple.read
    refine (takeArrayFront _ _ _).trans ?_
    refine (takeArrayFront _ _ _).trans ?_
    refine (takeArrayFront _ _ _).trans ?_
    refine (takeArrayFront _ _ _).trans ?_
    refine (takeArrayFront _ _ _).trans ?_
    simp only [u64FromLeToLe]
    rfl

theorem credentialFronts : Fronts SignedCredential.Short SignedCredential.encode SignedCredential.read := by
  constructor
  · intro cur
    unfold SignedCredential.read
    refine takeArray ?_
    intro signature cur first
    refine takeArray ?_
    intro tenantLen cur second
    refine UsageReceipt.takeText ?_
    intro tenant cur third tenantLength
    refine takeArray ?_
    intro agentLen cur fourth
    refine UsageReceipt.takeText ?_
    intro agent cur fifth agentLength
    refine takeArray ?_
    intro expiresAt cur sixth
    refine Reads.pure ⟨⟨tenantLength ▸ fromLeBytesLt tenantLen,agentLength ▸ fromLeBytesLt agentLen⟩,?_⟩
    have tenantCount : u32LE (.ofNat (asBytes tenant).length) = tenantLen.toList := by rw [u32LECount, tenantLength, leFromLeBytes]
    have agentCount : u32LE (.ofNat (asBytes agent).length) = agentLen.toList := by rw [u32LECount, agentLength, leFromLeBytes]
    simp only [SignedCredential.encode, tenantCount, agentCount, u64LEFromLeBytes, List.append_assoc]
    rw [first, second, third, fourth, fifth, sixth]
  · rintro credential rest ⟨tenantShort,agentShort⟩
    have tenantLength : fromLeBytes (toLeBytes 4 (asBytes credential.credential.tenant).length) = (asBytes credential.credential.tenant).length :=
      fromLeToLe tenantShort
    have agentLength : fromLeBytes (toLeBytes 4 (asBytes credential.credential.agent).length) = (asBytes credential.credential.agent).length :=
      fromLeToLe agentShort
    simp only [SignedCredential.encode, u32LECount, u64LE, ← toLeBytesList, List.append_assoc]
    unfold SignedCredential.read
    refine (takeArrayFront _ _ _).trans ?_
    refine (takeArrayFront _ _ _).trans ?_
    rw [tenantLength]
    refine (UsageReceipt.takeTextFront _ _ _).trans ?_
    refine (takeArrayFront _ _ _).trans ?_
    rw [agentLength]
    refine (UsageReceipt.takeTextFront _ _ _).trans ?_
    refine (takeArrayFront _ _ _).trans ?_
    simp only [u64FromLeToLe]
    rfl

theorem claimLength (signature : Signature) (channel : ChannelId) (key : Key) (direction : Direction) (rights : Rights) (delegable : Bool)
    (expiresAt : UnixSeconds) : (claimBytes signature channel key direction rights delegable expiresAt).length = SignedChannelGrant.wireLen := by
  simp [claimBytes, u64LE, leLength, SignedChannelGrant.wireLen]

namespace ChannelJoinRequest

theorem decodeAnswers (bytes : Bytes) : Answers False (decode bytes) (fun r => r.endpoint ≠ "" ∧ r.encode = bytes) := by
  unfold decode
  split
  case isTrue => exact .failure not_false
  case isFalse long =>
    have fits : SignedChannelGrant.wireLen ≤ bytes.length := by omega
    rw [splitAt, if_pos fits, pure_bind]
    refine Answers.bind (wholeAnswers grantFronts (bytes.take SignedChannelGrant.wireLen)) ?_
    rintro grant ⟨_,front⟩
    refine Answers.bind (Answers.ofOption (fun s => fromUtf8Some) False.elim) ?_
    intro endpoint back
    split
    case isTrue => exact .failure not_false
    case isFalse named =>
      refine .pure ⟨by simpa using named,?_⟩
      rw [encode, front, back, List.take_append_drop]

theorem decodeEncode (r : ChannelJoinRequest) (named : r.endpoint ≠ "") : decode r.encode = pure r := by
  have front : r.grant.encode.length = SignedChannelGrant.wireLen := claimLength ..
  have some' : 0 < (asBytes r.endpoint).length := by
    rw [List.length_pos_iff]
    intro empty
    exact named (asBytesInjective (empty.trans (by rfl)))
  have long : ¬ r.encode.length ≤ SignedChannelGrant.wireLen := by
    rw [encode, List.length_append, front]
    omega
  have takes : r.encode.take SignedChannelGrant.wireLen = r.grant.encode := by rw [encode, ← front, List.take_left]
  have drops : r.encode.drop SignedChannelGrant.wireLen = asBytes r.endpoint := by rw [encode, ← front, List.drop_left]
  have grant : SignedChannelGrant.decode r.grant.encode = pure r.grant := (wholeCanonical grantFronts).readsBack r.grant trivial
  rw [decode, if_neg long, splitAt, if_pos (by omega), pure_bind]
  dsimp only
  rw [takes, drops, grant, pure_bind, fromUtf8Bytes]
  show (if r.endpoint.isEmpty = true then (failure : Attempt ChannelJoinRequest) else pure ⟨r.grant,r.endpoint⟩) = _
  rw [if_neg (by simpa using named)]

end ChannelJoinRequest
/- No input of which a value was read continues with more bytes to another such input. -/
def Closed {α : Type} (decode : Bytes → Attempt α) : Prop :=
  ∀ bytes more a b, decode bytes = pure a → decode (bytes ++ more) = pure b → more = []

/- Every object has one wire form, a credential whenever its texts fit their length fields and
   only then. Nothing may be missing from it or follow it; what follows the grant of a join
   request is its endpoint, of at least one byte. -/
theorem wireObjects :
    (Canonical (fun _ => True) SignedChannelGrant.encode SignedChannelGrant.decode ∧ Closed SignedChannelGrant.decode) ∧
    (Canonical (fun r => r.endpoint ≠ "") ChannelJoinRequest.encode ChannelJoinRequest.decode ∧
      ∀ bytes r, ChannelJoinRequest.decode bytes = pure r → SignedChannelGrant.wireLen < bytes.length) ∧
    (Canonical (fun _ => True) MembershipStaple.encode MembershipStaple.decode ∧ Closed MembershipStaple.decode) ∧
    (Canonical (fun _ => True) SignedChannelInvitation.encode SignedChannelInvitation.decode ∧ Closed SignedChannelInvitation.decode) ∧
    (Canonical SignedCredential.Short SignedCredential.encode SignedCredential.decode ∧ Closed SignedCredential.decode ∧
      ∀ c : SignedCredential, SignedCredential.decode c.encode = pure c → c.Short) := by
  have request := Canonical.ofAnswers ChannelJoinRequest.decodeEncode
    (fun bytes => (ChannelJoinRequest.decodeAnswers bytes).mono id (fun _ both => both.2))
  refine ⟨⟨wholeCanonical grantFronts,fun _ _ _ _ => wholeEnds grantFronts⟩,⟨request,?_⟩,
    ⟨wholeCanonical stapleFronts,fun _ _ _ _ => wholeEnds stapleFronts⟩,
    ⟨wholeCanonical invitationFronts,fun _ _ _ _ => wholeEnds invitationFronts⟩,
    wholeCanonical credentialFronts,fun _ _ _ _ => wholeEnds credentialFronts,fun _ decoded => (wholeGood credentialFronts decoded).1⟩
  intro bytes r decoded
  by_contra short
  have refused : ChannelJoinRequest.decode bytes = failure := if_pos (Nat.not_lt.mp short)
  rw [refused] at decoded
  exact absurd (congrArg OptionT.run decoded) (by simp [OptionT.run, failure, pure, OptionT.pure, OptionT.mk, OptionT.fail, Except.pure])

theorem plainLength (n : Nat) : (asBytes (.ofList (.replicate n 'a'))).length = n := by
  have ascii : ∀ c ∈ List.replicate n 'a', c.toNat < 128 := by
    intro c mem
    rw [List.eq_of_mem_replicate mem]
    decide
  rw [asBytesAscii ascii, List.length_map, List.length_replicate]

/- A tenant of 4 GiB does not come back. -/
theorem longTenantLost : ¬ ∀ c : SignedCredential, SignedCredential.decode c.encode = pure c := by
  intro every
  have short : ∀ n, (asBytes (.ofList (.replicate n 'a'))).length < 2 ^ 32 := fun n =>
    (wholeGood credentialFronts (every ⟨⟨.ofList (.replicate n 'a'),"agent",0⟩,Vector.replicate 64 0⟩)).1.1
  have long := short (2 ^ 32)
  rw [plainLength] at long
  exact absurd long (lt_irrefl _)

end CadsTunnel.MembershipWire
