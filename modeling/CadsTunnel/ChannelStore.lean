import CadsTunnel.ChannelObjects
import CadsTunnel.HexText
import CadsTunnel.Machine
import CadsTunnel.Sql

/-! The channel store: the registered channels and six tables that speak of them. The database
has no foreign keys, so the code alone keeps rows from outliving their channel, and a grant or
a claim from outliving its member. -/
namespace CadsTunnel.ChannelStore
open OrderedMap Words Sql
open Std (ExtTreeMap)

abbrev Holder := Key
abbrev Digest := Vector UInt8 32

structure ChannelRow where
  operator : Key
  owner : String

structure MemberRow where
  noisePubkey : Key
  noiseAttestation : Signature

structure AllowRow where
  addedBy : String
  addedAt : Int
  claimedAt : Option Int := none

structure SubjectRow where
  subject : String
  claimedAt : Int

structure DepositRow where
  grantHex : String
  depositedAt : Int

structure RevocationRow where
  revokedAt : Int
  expiresAt : Int

structure InviteRow where
  channel : ChannelId
  holder : Holder
  noisePubkey : Key
  noiseAttestation : Signature
  label : Option String
  mintedBy : String
  createdAt : Int
  expiresAt : Int
  consumedAt : Option Int := none

structure Tables where
  channels : BTreeMap ChannelId ChannelRow := ∅
  grantRevocations : BTreeMap (ChannelId × Digest) RevocationRow := ∅
  members : BTreeMap (ChannelId × Holder) MemberRow := ∅
  allowlist : BTreeMap (ChannelId × String) AllowRow := ∅
  memberSubjects : BTreeMap (ChannelId × Holder) SubjectRow := ∅
  grantDeposits : BTreeMap (ChannelId × Holder) DepositRow := ∅
  claimInvites : BTreeMap String InviteRow := ∅

inductive RegisterChannelOutcome where
  | registered
  | unchanged
  | rekeyed (previous : Key)
  | operatorMismatch
  | ownedByAnother
  | overLimit
  deriving DecidableEq

structure ChannelTransferReport where
  memberCount : UInt32
  targetOwnedAfter : UInt32
  deriving DecidableEq

inductive TransferChannelOutcome where
  | transferred (report : ChannelTransferReport)
  | alreadyOwnedByTarget
  | notFound
  | ownerMismatch
  | targetMissing
  deriving DecidableEq

inductive ClaimOutcome where
  | claimed
  | notAllowlisted
  | holderClaimedByAnother
  deriving DecidableEq

inductive GrantDepositOutcome where
  | deposited
  | notOwner
  | notAMember
  deriving DecidableEq

abbrev Work (α : Type) := Session Tables SqlError α

def toAsciiLowercase (s : String) : String := .ofList (s.toList.map Char.toLower)

theorem lowercaseTwice (s : String) : toAsciiLowercase (toAsciiLowercase s) = toAsciiLowercase s := by
  have twice : Char.toLower ∘ Char.toLower = Char.toLower := funext Char.toLower_toLower_eq_toLower
  rw [toAsciiLowercase, toAsciiLowercase, String.toList_ofList, List.map_map, twice]

/- `SELECT COUNT(*)`, read as a 32-bit number. -/
def count {K V : Type} [Ord K] (p : K → V → Bool) (t : BTreeMap K V) : Except SqlError UInt32 :=
  let n := (t.filter p).size
  if n < 2 ^ 32 then .ok (.ofNat n) else .error (.outOfRange 0 n)

def owns (channel : ChannelId) (owner : String) (s : Tables) : Bool := s.channels[channel]?.any (fun row => row.owner = owner)

def registerChannelIfUnderOwnedLimit (channel : ChannelId) (operatorPubkey : Key) (owner : String) (max : UInt32) (allowRekey : Bool) :
    Work RegisterChannelOutcome := do
  let existing ← select (fun s => s.channels[channel]?)
  match existing with
  | some row =>
    if row.owner ≠ owner then pure .ownedByAnother
    else if row.operator = operatorPubkey then pure .unchanged
    else if !allowRekey then pure .operatorMismatch
    else
      execute (fun s => ((),{ s with channels := (updateWhere (fun k r => k = channel && r.owner = owner)
        (fun r => { r with operator := operatorPubkey }) s.channels).2 }))
      pure (.rekeyed row.operator)
  | none =>
    let ownedCount ← statement (fun s => (count (fun _ r => r.owner = owner) s.channels).map (fun n => (n,s)))
    if max ≤ ownedCount then pure .overLimit
    else
      statement (fun s => (insertRow channel ⟨operatorPubkey,owner⟩ s.channels).map (fun rows => ((),{ s with channels := rows })))
      pure .registered

/- What `DELETE FROM {table} WHERE channel = ?1` does to each of the dependent tables. -/
def channelDependentTables : List (ChannelId → Tables → Tables) :=
  [fun channel s => { s with grantRevocations := (deleteWhere (fun k _ => k.1 = channel) s.grantRevocations).2 },
   fun channel s => { s with members := (deleteWhere (fun k _ => k.1 = channel) s.members).2 },
   fun channel s => { s with allowlist := (deleteWhere (fun k _ => k.1 = channel) s.allowlist).2 },
   fun channel s => { s with memberSubjects := (deleteWhere (fun k _ => k.1 = channel) s.memberSubjects).2 },
   fun channel s => { s with grantDeposits := (deleteWhere (fun k _ => k.1 = channel) s.grantDeposits).2 },
   fun channel s => { s with claimInvites := (deleteWhere (fun _ row => row.channel = channel) s.claimInvites).2 }]

def deleteChannel (owner : String) (channel : ChannelId) : Work Bool :=
  transaction (do
    let n ← execute (fun s =>
      let (n,rows) := deleteWhere (fun k row => k = channel && row.owner = owner) s.channels
      (n,{ s with channels := rows }))
    if n > 0 then
      channelDependentTables.foldlM (fun _ delete => execute (fun s => ((),delete channel s))) ()
      pure (.commit true)
    else pure (.commit false))

/- Whether the target exists is asked of another store. -/
def transferChannel (channel : ChannelId) (fromSubject toSubject : String) (targetExists : Except SqlError Bool) :
    Work TransferChannelOutcome :=
  transaction (do
    let row ← select (fun s => s.channels[channel]?)
    match row with
    | none => pure (.rollback .notFound)
    | some row =>
      if row.owner = toSubject then pure (.rollback .alreadyOwnedByTarget)
      else if row.owner ≠ fromSubject then pure (.rollback .ownerMismatch)
      else
        match targetExists with
        | .error e => throw e
        | .ok false => pure (.rollback .targetMissing)
        | .ok true =>
          execute (fun s => ((),{ s with channels := (updateWhere (fun k r => k = channel && r.owner = fromSubject)
            (fun r => { r with owner := toSubject }) s.channels).2 }))
          let memberCount ← statement (fun s => (count (fun k _ => k.1 = channel) s.members).map (fun n => (n,s)))
          let targetOwnedAfter ← statement (fun s => (count (fun _ r => r.owner = toSubject) s.channels).map (fun n => (n,s)))
          pure (.commit (.transferred ⟨memberCount,targetOwnedAfter⟩)))

def addMember (channel : ChannelId) (owner : String) (holder : Holder) (noisePubkey : Key) (noiseAttestation : Signature) : Work Bool := do
  let isOwner ← select (owns channel owner)
  if isOwner then
    execute (fun s => ((),{ s with members := s.members.insert (channel,holder) ⟨noisePubkey,noiseAttestation⟩ }))
    pure true
  else pure false

def removeMember (channel : ChannelId) (owner : String) (holder : Holder) : Work Bool :=
  transaction (do
    let isOwner ← select (owns channel owner)
    if isOwner then
      execute (fun s => ((),{ s with members := s.members.erase (channel,holder) }))
      execute (fun s => ((),{ s with grantDeposits := s.grantDeposits.erase (channel,holder) }))
      execute (fun s => ((),{ s with memberSubjects := s.memberSubjects.erase (channel,holder) }))
      pure (.commit true)
    else pure (.rollback false))

def allowlistAdd (channel : ChannelId) (owner email : String) (now : UInt64) : Work Bool := do
  let isOwner ← select (owns channel owner)
  if isOwner then
    execute (fun s => ((),{ s with allowlist := s.allowlist.insert (channel,toAsciiLowercase email) ⟨owner,asI64 now,none⟩ }))
    pure true
  else pure false

def allowlistRemove (channel : ChannelId) (owner email : String) : Work Bool := do
  let isOwner ← select (owns channel owner)
  if isOwner then
    execute (fun s => ((),{ s with allowlist := s.allowlist.erase (channel,toAsciiLowercase email) }))
    pure true
  else pure false

def removeAllowlistEntriesForEmail (email : String) : Work Nat :=
  execute (fun s =>
    let (n,rows) := deleteWhere (fun k _ => k.2 = toAsciiLowercase email) s.allowlist
    (n,{ s with allowlist := rows }))

/- The claim is no transaction: it adds the member first and records the subject last. -/
def claimViaAllowlist (channel : ChannelId) (email : String) (holder : Holder) (noisePubkey : Key) (noiseAttestation : Signature)
    (now : UInt64) (subject : Option String) : Work ClaimOutcome := do
  let allowed ← select (fun s => s.allowlist.contains (channel,toAsciiLowercase email))
  if !allowed then pure .notAllowlisted
  else
    let ownedByOther ← match subject with
      | some subject => select (fun s => s.memberSubjects[(channel,holder)]?.any (fun row => row.subject ≠ subject))
      | none => pure false
    if ownedByOther then pure .holderClaimedByAnother
    else
      execute (fun s => ((),{ s with members := s.members.insert (channel,holder) ⟨noisePubkey,noiseAttestation⟩ }))
      execute (fun s => ((),{ s with allowlist := (updateWhere (fun k _ => k = (channel,toAsciiLowercase email))
        (fun row => { row with claimedAt := some (asI64 now) }) s.allowlist).2 }))
      match subject with
      | some subject =>
        execute (fun s => ((),{ s with memberSubjects := s.memberSubjects.insert (channel,holder) ⟨subject,asI64 now⟩ }))
        pure .claimed
      | none => pure .claimed

def claimInviteTtlSecs : UInt64 := 15 * 60

def claimInviteTokenHash (sha256 : Bytes → Hash) (token : String) : String := Hex.encode (sha256 (asBytes token)).toList

/- The token is the text of what the random generator gives. -/
def mintClaimInvite (sha256 : Bytes → Hash) (channel : ChannelId) (owner : String) (holder : Holder) (noisePubkey : Key)
    (noiseAttestation : Signature) (label : Option String) (now : UInt64) (token : String) : Work (Option (String × UInt64)) := do
  let isOwner ← select (owns channel owner)
  if isOwner then
    let expiresAt := saturatingAdd now claimInviteTtlSecs
    statement (fun s =>
      (insertRow (claimInviteTokenHash sha256 token)
        ⟨channel,holder,noisePubkey,noiseAttestation,label,owner,asI64 now,asI64 expiresAt,none⟩ s.claimInvites).map
        (fun rows => ((),{ s with claimInvites := rows })))
    pure (some (token,expiresAt))
  else pure none

def consumeClaimInvite (sha256 : Bytes → Hash) (token : String) (now : UInt64) : Work Bool := do
  let changed ← execute (fun s =>
    let (n,rows) := updateWhere (fun k row => k = claimInviteTokenHash sha256 token && row.consumedAt.isNone && asI64 now < row.expiresAt)
      (fun row => { row with consumedAt := some (asI64 now) }) s.claimInvites
    (n,{ s with claimInvites := rows }))
  pure (changed > 0)

def pruneClaimInvites (cutoff : UInt64) : Work Nat :=
  execute (fun s =>
    let (n,rows) := deleteWhere (fun _ row => row.expiresAt < asI64 cutoff || row.consumedAt.any (fun t => t < asI64 cutoff)) s.claimInvites
    (n,{ s with claimInvites := rows }))

def depositGrant (channel : ChannelId) (owner : String) (holder : Holder) (grantHex : String) (now : UInt64) : Work GrantDepositOutcome := do
  let isOwner ← select (owns channel owner)
  if isOwner then
    let member ← select (fun s => s.members.contains (channel,holder))
    if member then
      execute (fun s => ((),{ s with grantDeposits := s.grantDeposits.insert (channel,holder) ⟨grantHex,asI64 now⟩ }))
      pure .deposited
    else pure .notAMember
  else pure .notOwner

def saturatedI64 (v : UInt64) : Int := min v.toNat (2 ^ 63 - 1)

def revokeGrant (channel : ChannelId) (grantDigest : Digest) (expiresAt now : UInt64) : Work (Option Bool) :=
  transaction (do
    let known ← select (fun s => s.channels.contains channel)
    if !known then pure (.rollback none)
    else
      execute (fun s => ((),{ s with
        grantRevocations := (deleteWhere (fun _ row => row.expiresAt ≤ saturatedI64 now) s.grantRevocations).2 }))
      if expiresAt ≤ now then pure (.commit (some true))
      else
        let inserted ← execute (fun s =>
          let (n,rows) := insertOrIgnore (channel,grantDigest) ⟨saturatedI64 now,saturatedI64 expiresAt⟩ s.grantRevocations
          (n,{ s with grantRevocations := rows }))
        pure (.commit (some (inserted > 0))))

/- The holders that a subject has claimed on a channel, each with its grant if there is one. -/
def depositedGrantsForSubject (channel : ChannelId) (subject : String) : Work (List (Holder × Option String)) :=
  select (fun s =>
    ((s.memberSubjects.toList.filter (fun e => e.1.1 = channel && e.2.subject = subject)).mergeSort
      (fun a b => a.2.claimedAt ≤ b.2.claimedAt)).map
      (fun e => (e.1.2,s.grantDeposits[e.1]?.map DepositRow.grantHex)))

inductive Op where
  | registerChannel (channel : ChannelId) (operatorPubkey : Key) (owner : String) (max : UInt32) (allowRekey : Bool)
  | deleteChannel (owner : String) (channel : ChannelId)
  | transferChannel (channel : ChannelId) (fromSubject toSubject : String) (targetExists : Except SqlError Bool)
  | addMember (channel : ChannelId) (owner : String) (holder : Holder) (noisePubkey : Key) (noiseAttestation : Signature)
  | removeMember (channel : ChannelId) (owner : String) (holder : Holder)
  | allowlistAdd (channel : ChannelId) (owner email : String) (now : UInt64)
  | allowlistRemove (channel : ChannelId) (owner email : String)
  | removeAllowlistEntriesForEmail (email : String)
  | claimViaAllowlist (channel : ChannelId) (email : String) (holder : Holder) (noisePubkey : Key) (noiseAttestation : Signature)
      (now : UInt64) (subject : Option String)
  | mintClaimInvite (channel : ChannelId) (owner : String) (holder : Holder) (noisePubkey : Key) (noiseAttestation : Signature)
      (label : Option String) (now : UInt64) (token : String)
  | consumeClaimInvite (token : String) (now : UInt64)
  | pruneClaimInvites (cutoff : UInt64)
  | depositGrant (channel : ChannelId) (owner : String) (holder : Holder) (grantHex : String) (now : UInt64)
  | revokeGrant (channel : ChannelId) (grantDigest : Digest) (expiresAt now : UInt64)

inductive Answer where
  | registration (outcome : RegisterChannelOutcome)
  | transfer (outcome : TransferChannelOutcome)
  | claim (outcome : ClaimOutcome)
  | deposit (outcome : GrantDepositOutcome)
  | invite (token : Option (String × UInt64))
  | revocation (recorded : Option Bool)
  | done (yes : Bool)
  | removed (n : Nat)

/- A call, and which of its statements fail. -/
structure Call where
  op : Op
  faults : List Bool := []

def settle {α : Type} (answer : α → Answer) (x : Work α) (s : Tables) (faults : List Bool) : Except SqlError Answer × Tables :=
  let (result,next) := perform x s faults
  (result.map answer,next)

def step (sha256 : Bytes → Hash) (s : Tables) (call : Call) : Except SqlError Answer × Tables :=
  match call.op with
  | .registerChannel channel operatorPubkey owner max allowRekey =>
    settle .registration (registerChannelIfUnderOwnedLimit channel operatorPubkey owner max allowRekey) s call.faults
  | .deleteChannel owner channel => settle .done (deleteChannel owner channel) s call.faults
  | .transferChannel channel fromSubject toSubject targetExists =>
    settle .transfer (transferChannel channel fromSubject toSubject targetExists) s call.faults
  | .addMember channel owner holder noisePubkey noiseAttestation =>
    settle .done (addMember channel owner holder noisePubkey noiseAttestation) s call.faults
  | .removeMember channel owner holder => settle .done (removeMember channel owner holder) s call.faults
  | .allowlistAdd channel owner email now => settle .done (allowlistAdd channel owner email now) s call.faults
  | .allowlistRemove channel owner email => settle .done (allowlistRemove channel owner email) s call.faults
  | .removeAllowlistEntriesForEmail email => settle .removed (removeAllowlistEntriesForEmail email) s call.faults
  | .claimViaAllowlist channel email holder noisePubkey noiseAttestation now subject =>
    settle .claim (claimViaAllowlist channel email holder noisePubkey noiseAttestation now subject) s call.faults
  | .mintClaimInvite channel owner holder noisePubkey noiseAttestation label now token =>
    settle .invite (mintClaimInvite sha256 channel owner holder noisePubkey noiseAttestation label now token) s call.faults
  | .consumeClaimInvite token now => settle .done (consumeClaimInvite sha256 token now) s call.faults
  | .pruneClaimInvites cutoff => settle .removed (pruneClaimInvites cutoff) s call.faults
  | .depositGrant channel owner holder grantHex now => settle .deposit (depositGrant channel owner holder grantHex now) s call.faults
  | .revokeGrant channel grantDigest expiresAt now => settle .revocation (revokeGrant channel grantDigest expiresAt now) s call.faults

def run (sha256 : Bytes → Hash) (calls : List Call) : Tables := Machine.run (step sha256) {} calls

/- The rows of a table belong to registered channels. -/
def Rooted {B V : Type} [Ord B] [Std.TransOrd B] (t : BTreeMap (ChannelId × B) V) (channels : BTreeMap ChannelId ChannelRow) : Prop :=
  ∀ k ∈ t, k.1 ∈ channels

structure Integrity (s : Tables) : Prop where
  revocations : Rooted s.grantRevocations s.channels
  members : Rooted s.members s.channels
  allowlist : Rooted s.allowlist s.channels
  subjects : Rooted s.memberSubjects s.channels
  deposits : Rooted s.grantDeposits s.channels
  invites : ∀ (k : String) (row : InviteRow), s.claimInvites[k]? = some row → row.channel ∈ s.channels
  claimed : ∀ k ∈ s.memberSubjects, k ∈ s.members
  granted : ∀ k ∈ s.grantDeposits, k ∈ s.members

def Op.deletes (channel : ChannelId) (owner : String) : Op → Prop
  | .deleteChannel owner' channel' => channel' = channel ∧ owner' = owner
  | _ => False

def Op.transfers (channel : ChannelId) (owner next : String) : Op → Prop
  | .transferChannel channel' fromSubject toSubject _ => channel' = channel ∧ fromSubject = owner ∧ toSubject = next
  | _ => False

def Op.rekeys (channel : ChannelId) (owner : String) (next : Key) : Op → Prop
  | .registerChannel channel' operatorPubkey owner' _ allowRekey =>
    channel' = channel ∧ owner' = owner ∧ operatorPubkey = next ∧ allowRekey = true
  | _ => False

def Op.adds (k : ChannelId × Holder) : Op → Prop
  | .addMember channel _ holder _ _ | .claimViaAllowlist channel _ holder _ _ _ _ => (channel,holder) = k
  | _ => False

def Op.removes (k : ChannelId × Holder) : Op → Prop
  | .removeMember channel _ holder => (channel,holder) = k
  | .deleteChannel _ channel => channel = k.1
  | _ => False

/- What a call may do, wherever it is left: an owner changes by a transfer or goes with its channel, an operator key changes by
the re-key of an owner, a member joins by being added, and a claimed holder stays with its subject. -/
structure Allowed (op : Op) (s m : Tables) : Prop where
  integrity : Integrity s → Integrity m
  channels : ∀ (channel : ChannelId) (row : ChannelRow), s.channels[channel]? = some row →
    m.channels[channel]? = none ∧ op.deletes channel row.owner ∨
      ∃ next, m.channels[channel]? = some next ∧ (next.owner = row.owner ∨ op.transfers channel row.owner next.owner) ∧
        (next.operator = row.operator ∨ op.rekeys channel row.owner next.operator)
  members : ∀ k ∈ m.members, k ∈ s.members ∨ op.adds k
  subjects : ∀ (k : ChannelId × Holder) (row : SubjectRow), s.memberSubjects[k]? = some row →
    m.memberSubjects[k]? = none ∧ op.removes k ∨ ∃ next, m.memberSubjects[k]? = some next ∧ next.subject = row.subject

section Tables
variable {B V : Type} [Ord B] [Std.TransOrd B] [Std.LawfulEqOrd B] {t next : BTreeMap (ChannelId × B) V}
  {channels : BTreeMap ChannelId ChannelRow}

theorem rootedInsert (rooted : Rooted t channels) {k : ChannelId × B} (known : k.1 ∈ channels) (v : V) : Rooted (t.insert k v) channels := by
  intro a mem
  obtain same | old := ExtTreeMap.mem_insert.mp mem
  · rw [← Std.LawfulEqOrd.eq_of_compare same]
    exact known
  · exact rooted a old

omit [Std.LawfulEqOrd B] in
theorem rootedFewer (rooted : Rooted t channels) (fewer : ∀ k ∈ next, k ∈ t) : Rooted next channels := fun k mem => rooted k (fewer k mem)

theorem keptDeleted {K W : Type} [Ord K] [Std.TransOrd K] [Std.LawfulEqOrd K] {p : K → W → Bool} {u : BTreeMap K W} {k : K}
    (mem : k ∈ (deleteWhere p u).2) : k ∈ u := by
  rw [ExtTreeMap.mem_iff_isSome_getElem?, lookupDeleted] at mem
  rw [ExtTreeMap.mem_iff_isSome_getElem?]
  exact Option.isSome_of_isSome_filter _ _ mem

theorem keptUpdated {K W : Type} [Ord K] [Std.TransOrd K] [Std.LawfulEqOrd K] {p : K → W → Bool} {change : W → W} {u : BTreeMap K W} {k : K} :
    k ∈ (updateWhere p change u).2 ↔ k ∈ u := by
  rw [ExtTreeMap.mem_iff_isSome_getElem?, lookupUpdated, Option.isSome_map, ExtTreeMap.mem_iff_isSome_getElem?]

end Tables

section Calls
variable {s m : Tables} {op : Op}

theorem allowedBeside (integrity : Integrity s → Integrity m) (channels : m.channels = s.channels) (members : m.members = s.members)
    (subjects : m.memberSubjects = s.memberSubjects) : Allowed op s m := by
  exact ⟨integrity,fun channel row found => .inr ⟨row,channels ▸ found,.inl rfl,.inl rfl⟩,fun k mem => .inl (members ▸ mem),
    fun k row found => .inr ⟨row,subjects ▸ found,rfl⟩⟩

theorem allowedIdle (op : Op) (s : Tables) : Allowed op s s := allowedBeside id rfl rfl rfl

theorem integrityGrown {channels : BTreeMap ChannelId ChannelRow} (grown : ∀ c ∈ s.channels, c ∈ channels) (integrity : Integrity s) :
    Integrity { s with channels := channels } where
  revocations k mem := grown _ (integrity.revocations k mem)
  members k mem := grown _ (integrity.members k mem)
  allowlist k mem := grown _ (integrity.allowlist k mem)
  subjects k mem := grown _ (integrity.subjects k mem)
  deposits k mem := grown _ (integrity.deposits k mem)
  invites k row found := grown _ (integrity.invites k row found)
  claimed := integrity.claimed
  granted := integrity.granted

/- An owner writes to its own row. -/
theorem allowedUpdated {channel : ChannelId} {owner : String} {change : ChannelRow → ChannelRow}
    (owners : ∀ row : ChannelRow, row.owner = owner → (change row).owner = row.owner ∨ op.transfers channel row.owner (change row).owner)
    (operators : ∀ row : ChannelRow, row.owner = owner → (change row).operator = row.operator ∨ op.rekeys channel row.owner (change row).operator) :
    Allowed op s { s with channels := (updateWhere (fun k r => k = channel && r.owner = owner) change s.channels).2 } := by
  refine ⟨integrityGrown (fun c mem => keptUpdated.mpr mem),?_,fun _ mem => .inl mem,fun _ row found => .inr ⟨row,found,rfl⟩⟩
  intro c row found
  rw [lookupUpdated, found, Option.map_some]
  refine .inr ⟨_,rfl,?_⟩
  split
  case isTrue hit =>
    rw [Bool.and_eq_true, decide_eq_true_eq, decide_eq_true_eq] at hit
    obtain ⟨rfl,here⟩ := hit
    exact ⟨owners row here,operators row here⟩
  case isFalse => exact ⟨.inl rfl,.inl rfl⟩

theorem allowedRegistered {channel : ChannelId} {row : ChannelRow} (absent : s.channels[channel]? = none) :
    Allowed op s { s with channels := s.channels.insert channel row } := by
  refine ⟨integrityGrown (fun c mem => ExtTreeMap.mem_insert.mpr (.inr mem)),?_,fun _ mem => .inl mem,fun _ row found => .inr ⟨row,found,rfl⟩⟩
  intro c old found
  refine .inr ⟨old,?_,.inl rfl,.inl rfl⟩
  rw [lookupInsert, if_neg, found]
  rintro rfl
  rw [absent] at found
  contradiction

theorem registerEnds (channel : ChannelId) (operatorPubkey : Key) (owner : String) (max : UInt32) (allowRekey : Bool) :
    Ends (registerChannelIfUnderOwnedLimit channel operatorPubkey owner max allowRekey) s (fun r m =>
      Allowed (.registerChannel channel operatorPubkey owner max allowRekey) s m ∧
        (r = .ok .registered → s.channels[channel]? = none ∧ m = { s with channels := s.channels.insert channel ⟨operatorPubkey,owner⟩ })) := by
  have idle : ∀ {r : Except SqlError RegisterChannelOutcome}, r ≠ .ok .registered →
      Allowed (.registerChannel channel operatorPubkey owner max allowRekey) s s ∧
        (r = .ok .registered → s.channels[channel]? = none ∧ s = { s with channels := s.channels.insert channel ⟨operatorPubkey,owner⟩ }) :=
    fun other => ⟨allowedIdle _ s,fun same => absurd same other⟩
  unfold registerChannelIfUnderOwnedLimit
  refine endsSelect (idle (by simp)) ?_
  split
  case h_1 row found =>
    split
    case isTrue => exact endsPure (idle (by simp))
    case isFalse mine =>
      split
      case isTrue => exact endsPure (idle (by simp))
      case isFalse =>
        split
        case isTrue => exact endsPure (idle (by simp))
        case isFalse agreed =>
          refine endsExecute (idle (by simp)) (endsPure ⟨allowedUpdated (fun _ _ => .inl rfl) ?_,by simp⟩)
          exact fun _ here => .inr ⟨rfl,here.symm,rfl,by simpa using agreed⟩
  case h_2 absent =>
    refine endsRead (fun _ => idle (by simp)) ?_
    intro n _
    split
    case isTrue => exact endsPure (idle (by simp))
    case isFalse =>
      refine endsInsert (fun _ => idle (by simp)) ?_
      exact fun absent => endsPure ⟨allowedRegistered absent,fun _ => ⟨absent,rfl⟩⟩

theorem rootedDeleted {B V : Type} [Ord B] [Std.TransOrd B] [Std.LawfulEqOrd B] {t : BTreeMap (ChannelId × B) V}
    {channels : BTreeMap ChannelId ChannelRow} {channel : ChannelId} {q : ChannelRow → Bool} (rooted : Rooted t channels) :
    Rooted (deleteWhere (fun k _ => k.1 = channel) t).2 (deleteWhere (fun k r => k = channel && q r) channels).2 := by
  intro k mem
  have old := rooted k (keptDeleted mem)
  have other : k.1 ≠ channel := by
    intro same
    rw [ExtTreeMap.mem_iff_isSome_getElem?, lookupDeleted] at mem
    cases here : t[k]? <;> simp [here, same] at mem
  rw [ExtTreeMap.mem_iff_isSome_getElem?, lookupDeleted]
  obtain ⟨row,found⟩ := Option.isSome_iff_exists.mp (ExtTreeMap.mem_iff_isSome_getElem?.mp old)
  rw [found]
  simp [other]

/- A key of the channel is gone from every table, and every other key stays. -/
theorem underDeleted {V W : Type} {t : BTreeMap (ChannelId × Holder) V} {u : BTreeMap (ChannelId × Holder) W} {channel : ChannelId}
    (under : ∀ k ∈ t, k ∈ u) {k : ChannelId × Holder} (mem : k ∈ (deleteWhere (fun k _ => k.1 = channel) t).2) :
    k ∈ (deleteWhere (fun k _ => k.1 = channel) u).2 := by
  have old := under k (keptDeleted mem)
  have other : k.1 ≠ channel := by
    intro same
    rw [ExtTreeMap.mem_iff_isSome_getElem?, lookupDeleted] at mem
    cases here : t[k]? <;> simp [here, same] at mem
  rw [ExtTreeMap.mem_iff_isSome_getElem?, lookupDeleted]
  obtain ⟨row,found⟩ := Option.isSome_iff_exists.mp (ExtTreeMap.mem_iff_isSome_getElem?.mp old)
  rw [found]
  simp [other]

/- What is left of the tables after a channel was deleted with all that depends on it. -/
def withoutChannel (channel : ChannelId) (owner : String) (s : Tables) : Tables where
  channels := (deleteWhere (fun k row => k = channel && row.owner = owner) s.channels).2
  grantRevocations := (deleteWhere (fun k _ => k.1 = channel) s.grantRevocations).2
  members := (deleteWhere (fun k _ => k.1 = channel) s.members).2
  allowlist := (deleteWhere (fun k _ => k.1 = channel) s.allowlist).2
  memberSubjects := (deleteWhere (fun k _ => k.1 = channel) s.memberSubjects).2
  grantDeposits := (deleteWhere (fun k _ => k.1 = channel) s.grantDeposits).2
  claimInvites := (deleteWhere (fun _ row => row.channel = channel) s.claimInvites).2

theorem allowedDeleted (channel : ChannelId) (owner : String) : Allowed (.deleteChannel owner channel) s (withoutChannel channel owner s) := by
  refine ⟨fun integrity => ?_,?_,fun k mem => .inl (keptDeleted mem),?_⟩
  · refine ⟨rootedDeleted integrity.revocations,rootedDeleted integrity.members,rootedDeleted integrity.allowlist,
      rootedDeleted integrity.subjects,rootedDeleted integrity.deposits,?_,fun k mem => underDeleted integrity.claimed mem,
      fun k mem => underDeleted integrity.granted mem⟩
    intro k row found
    simp only [withoutChannel, lookupDeleted, Option.filter_eq_some_iff, Bool.not_eq_true', decide_eq_false_iff_not] at found
    obtain ⟨old,found'⟩ := Option.isSome_iff_exists.mp (ExtTreeMap.mem_iff_isSome_getElem?.mp (integrity.invites k row found.1))
    rw [ExtTreeMap.mem_iff_isSome_getElem?]
    simp only [withoutChannel, lookupDeleted, found']
    simp [found.2]
  · intro c row found
    simp only [withoutChannel, lookupDeleted, found]
    by_cases hit : c = channel ∧ row.owner = owner
    · exact .inl ⟨by simp [hit],hit.1.symm,hit.2.symm⟩
    · refine .inr ⟨row,?_,.inl rfl,.inl rfl⟩
      rw [Option.filter_eq_some_iff]
      simpa using not_and_or.mp hit
  · intro k row found
    simp only [withoutChannel, lookupDeleted, found]
    by_cases hit : k.1 = channel
    · exact .inl ⟨by simp [hit],hit.symm⟩
    · exact .inr ⟨row,by simp [hit],rfl⟩

theorem deleteChannelEnds (owner : String) (channel : ChannelId) :
    Ends (deleteChannel owner channel) s (fun _ m => Allowed (.deleteChannel owner channel) s m) := by
  unfold deleteChannel
  refine endsTransaction (allowedIdle _ s) (endsExecute (allowedIdle _ s) ?_)
  have any := deletedAny channel (fun row : ChannelRow => decide (row.owner = owner)) s.channels
  by_cases hit : s.channels[channel]?.any (fun row => row.owner = owner)
  · rw [if_pos (any.mpr hit)]
    simp only [channelDependentTables, List.foldlM_cons, List.foldlM_nil, bind_assoc, pure_bind]
    iterate 6 refine endsExecute (allowedIdle _ s) ?_
    exact endsPure (allowedDeleted channel owner)
  · rw [if_neg (mt any.mp hit)]
    refine endsPure ?_
    simp only [deletedRow, if_neg hit]
    exact allowedIdle _ s

theorem transferChannelEnds (channel : ChannelId) (fromSubject toSubject : String) (targetExists : Except SqlError Bool) :
    Ends (transferChannel channel fromSubject toSubject targetExists) s (fun _ m =>
      Allowed (.transferChannel channel fromSubject toSubject targetExists) s m) := by
  have idle := allowedIdle (.transferChannel channel fromSubject toSubject targetExists) s
  unfold transferChannel
  refine endsTransaction idle (endsSelect idle ?_)
  split
  case h_1 => exact endsPure idle
  case h_2 row _ =>
    split
    case isTrue => exact endsPure idle
    case isFalse =>
      split
      case isTrue => exact endsPure idle
      case isFalse =>
        cases targetExists with
        | error e => exact endsThrow idle
        | ok found =>
          cases found with
          | false => exact endsPure idle
          | true =>
            refine endsExecute idle (endsRead (fun _ => idle) (fun _ _ => endsRead (fun _ => idle) (fun _ _ => endsPure ?_)))
            exact allowedUpdated (fun _ here => .inr ⟨rfl,here.symm,rfl⟩) (fun _ _ => .inl rfl)

theorem ownsKnown {channel : ChannelId} {owner : String} (yes : owns channel owner s = true) : channel ∈ s.channels := by
  rw [ExtTreeMap.mem_iff_isSome_getElem?]
  cases found : s.channels[channel]? with
  | none => simp [owns, found] at yes
  | some row => rfl

theorem integrityJoined {channel : ChannelId} (known : Integrity s → channel ∈ s.channels) (holder : Holder) (row : MemberRow)
    (integrity : Integrity s) : Integrity { s with members := s.members.insert (channel,holder) row } where
  revocations := integrity.revocations
  members := rootedInsert integrity.members (known integrity) row
  allowlist := integrity.allowlist
  subjects := integrity.subjects
  deposits := integrity.deposits
  invites := integrity.invites
  claimed k mem := ExtTreeMap.mem_insert.mpr (.inr (integrity.claimed k mem))
  granted k mem := ExtTreeMap.mem_insert.mpr (.inr (integrity.granted k mem))

theorem joins {channel : ChannelId} {holder : Holder} {row : MemberRow} {k : ChannelId × Holder}
    (mem : k ∈ s.members.insert (channel,holder) row) : k ∈ s.members ∨ (channel,holder) = k := by
  obtain same | old := ExtTreeMap.mem_insert.mp mem
  · exact .inr (Std.LawfulEqOrd.eq_of_compare same)
  · exact .inl old

theorem addMemberEnds (channel : ChannelId) (owner : String) (holder : Holder) (noisePubkey : Key) (noiseAttestation : Signature) :
    Ends (addMember channel owner holder noisePubkey noiseAttestation) s (fun _ m =>
      Allowed (.addMember channel owner holder noisePubkey noiseAttestation) s m) := by
  unfold addMember
  refine endsSelect (allowedIdle _ s) ?_
  split
  case isTrue yes =>
    refine endsExecute (allowedIdle _ s) (endsPure ?_)
    exact ⟨integrityJoined (fun _ => ownsKnown yes) holder _,fun _ row found => .inr ⟨row,found,.inl rfl,.inl rfl⟩,fun _ mem => joins mem,
      fun _ row found => .inr ⟨row,found,rfl⟩⟩
  case isFalse => exact endsPure (allowedIdle _ s)

theorem keptErased {K V : Type} [Ord K] [Std.TransOrd K] {t : BTreeMap K V} {k a : K} (mem : a ∈ t.erase k) : a ∈ t :=
  (ExtTreeMap.mem_erase.mp mem).2

theorem erasedUnder {V W : Type} {t : BTreeMap (ChannelId × Holder) V} {u : BTreeMap (ChannelId × Holder) W} {k : ChannelId × Holder}
    (under : ∀ a ∈ t, a ∈ u) {a : ChannelId × Holder} (mem : a ∈ t.erase k) : a ∈ u.erase k := by
  obtain ⟨other,old⟩ := ExtTreeMap.mem_erase.mp mem
  exact ExtTreeMap.mem_erase.mpr ⟨other,under a old⟩

/- What is left of the tables after a member was removed with its grant and its claim. -/
def withoutMember (k : ChannelId × Holder) (s : Tables) : Tables :=
  { s with
    members := s.members.erase k
    grantDeposits := s.grantDeposits.erase k
    memberSubjects := s.memberSubjects.erase k }

theorem allowedRemoved {k : ChannelId × Holder} (removes : op.removes k) : Allowed op s (withoutMember k s) := by
  refine ⟨fun integrity => ?_,fun _ row found => .inr ⟨row,found,.inl rfl,.inl rfl⟩,fun _ mem => .inl (keptErased mem),?_⟩
  · exact ⟨integrity.revocations,rootedFewer integrity.members (fun _ mem => keptErased mem),integrity.allowlist,
      rootedFewer integrity.subjects (fun _ mem => keptErased mem),rootedFewer integrity.deposits (fun _ mem => keptErased mem),
      integrity.invites,fun _ mem => erasedUnder integrity.claimed mem,fun _ mem => erasedUnder integrity.granted mem⟩
  · intro a row found
    simp only [withoutMember, lookupErase]
    split
    case isTrue same => exact .inl ⟨rfl,same ▸ removes⟩
    case isFalse => exact .inr ⟨row,found,rfl⟩

theorem removeMemberEnds (channel : ChannelId) (owner : String) (holder : Holder) :
    Ends (removeMember channel owner holder) s (fun r m => Allowed (.removeMember channel owner holder) s m ∧
      (r = .ok true → m = withoutMember (channel,holder) s)) := by
  have idle : ∀ {r : Except SqlError Bool}, r ≠ .ok true → Allowed (.removeMember channel owner holder) s s ∧
      (r = .ok true → s = withoutMember (channel,holder) s) := fun other => ⟨allowedIdle _ s,fun same => absurd same other⟩
  unfold removeMember
  refine endsTransaction (idle nofun) (endsSelect (idle nofun) ?_)
  split
  case isTrue =>
    iterate 3 refine endsExecute (idle nofun) ?_
    exact endsPure ⟨allowedRemoved rfl,fun _ => rfl⟩
  case isFalse => exact endsPure (idle nofun)

theorem integrityAllowlist {allowlist : BTreeMap (ChannelId × String) AllowRow} (rooted : Integrity s → Rooted allowlist s.channels)
    (integrity : Integrity s) : Integrity { s with allowlist := allowlist } where
  revocations := integrity.revocations
  members := integrity.members
  allowlist := rooted integrity
  subjects := integrity.subjects
  deposits := integrity.deposits
  invites := integrity.invites
  claimed := integrity.claimed
  granted := integrity.granted

theorem allowlistAddEnds (channel : ChannelId) (owner email : String) (now : UInt64) :
    Ends (allowlistAdd channel owner email now) s (fun _ m => Allowed op s m) := by
  unfold allowlistAdd
  refine endsSelect (allowedIdle _ s) ?_
  split
  case isTrue yes =>
    refine endsExecute (allowedIdle _ s) (endsPure (allowedBeside (integrityAllowlist ?_) rfl rfl rfl))
    exact fun integrity => rootedInsert integrity.allowlist (ownsKnown yes) _
  case isFalse => exact endsPure (allowedIdle _ s)

theorem allowlistRemoveEnds (channel : ChannelId) (owner email : String) :
    Ends (allowlistRemove channel owner email) s (fun _ m => Allowed op s m) := by
  unfold allowlistRemove
  refine endsSelect (allowedIdle _ s) ?_
  split
  case isTrue =>
    refine endsExecute (allowedIdle _ s) (endsPure (allowedBeside (integrityAllowlist ?_) rfl rfl rfl))
    exact fun integrity => rootedFewer integrity.allowlist (fun _ mem => keptErased mem)
  case isFalse => exact endsPure (allowedIdle _ s)

theorem removeAllowlistEntriesEnds (email : String) : Ends (removeAllowlistEntriesForEmail email) s (fun _ m => Allowed op s m) := by
  refine endsLast (endsExecute (allowedIdle _ s) (endsPure (allowedBeside (integrityAllowlist ?_) rfl rfl rfl)))
  exact fun integrity => rootedFewer integrity.allowlist (fun _ mem => keptDeleted mem)

theorem claimEnds (channel : ChannelId) (email : String) (holder : Holder) (noisePubkey : Key) (noiseAttestation : Signature) (now : UInt64)
    (subject : Option String) : Ends (claimViaAllowlist channel email holder noisePubkey noiseAttestation now subject) s (fun r m =>
      Allowed (.claimViaAllowlist channel email holder noisePubkey noiseAttestation now subject) s m ∧
        ∀ name row, subject = some name → s.memberSubjects[(channel,holder)]? = some row → row.subject ≠ name → m = s ∧ r ≠ .ok .claimed) := by
  have idle : ∀ {r : Except SqlError ClaimOutcome}, r ≠ .ok .claimed →
      Allowed (.claimViaAllowlist channel email holder noisePubkey noiseAttestation now subject) s s ∧
        ∀ name (row : SubjectRow), subject = some name → s.memberSubjects[(channel,holder)]? = some row → row.subject ≠ name →
          s = s ∧ r ≠ .ok .claimed := fun other => ⟨allowedIdle _ s,fun _ _ _ _ _ => ⟨rfl,other⟩⟩
  unfold claimViaAllowlist
  refine endsSelect (idle nofun) ?_
  split
  case isTrue => exact endsPure (idle nofun)
  case isFalse listed =>
    have known : Integrity s → channel ∈ s.channels := fun integrity =>
      integrity.allowlist (channel,toAsciiLowercase email) (by simpa [ExtTreeMap.contains_iff_mem] using listed)
    let joined : Tables := { s with members := s.members.insert (channel,holder) ⟨noisePubkey,noiseAttestation⟩ }
    let stamped : Tables := { joined with allowlist := (updateWhere (fun k _ => k = (channel,toAsciiLowercase email))
      (fun row => { row with claimedAt := some (asI64 now) }) s.allowlist).2 }
    have integrityOf : Integrity s → Integrity joined := integrityJoined known holder _
    have integrityOf' : Integrity s → Integrity stamped := fun integrity =>
      integrityAllowlist (s := joined) (fun _ => rootedFewer integrity.allowlist (fun _ mem => keptUpdated.mp mem)) (integrityOf integrity)
    have first : Allowed (.claimViaAllowlist channel email holder noisePubkey noiseAttestation now subject) s joined :=
      ⟨integrityOf,fun _ row found => .inr ⟨row,found,.inl rfl,.inl rfl⟩,fun _ mem => joins mem,fun _ row found => .inr ⟨row,found,rfl⟩⟩
    have second : Allowed (.claimViaAllowlist channel email holder noisePubkey noiseAttestation now subject) s stamped :=
      ⟨integrityOf',fun _ row found => .inr ⟨row,found,.inl rfl,.inl rfl⟩,fun _ mem => joins mem,fun _ row found => .inr ⟨row,found,rfl⟩⟩
    cases subject with
    | none =>
      simp only [pure_bind, Bool.false_eq_true, if_false]
      exact endsExecute (idle nofun) (endsExecute ⟨first,nofun⟩ (endsPure ⟨second,nofun⟩))
    | some name =>
      dsimp only
      refine endsSelect (idle nofun) ?_
      split
      case isTrue => exact endsPure (idle nofun)
      case isFalse mine =>
        have free : ∀ row : SubjectRow, s.memberSubjects[(channel,holder)]? = some row → row.subject = name := by
          intro row found
          simpa [found] using mine
        have quiet : ∀ {m : Tables} {r : Except SqlError ClaimOutcome} (name' : String) (row : SubjectRow), some name = some name' →
            s.memberSubjects[(channel,holder)]? = some row → row.subject ≠ name' → m = s ∧ r ≠ .ok .claimed :=
          fun name' row named found other => absurd ((free row found).trans (Option.some.inj named)) other
        refine endsExecute (idle nofun) (endsExecute ⟨first,quiet⟩ (endsExecute ⟨second,quiet⟩ (endsPure ⟨⟨?_,?_,?_,?_⟩,quiet⟩)))
        · intro integrity
          have before := integrityOf' integrity
          exact ⟨before.revocations,before.members,before.allowlist,rootedInsert before.subjects (known integrity) _,before.deposits,before.invites,
            fun k mem => by
              obtain here | old := ExtTreeMap.mem_insert.mp mem
              · exact ExtTreeMap.mem_insert.mpr (.inl here)
              · exact before.claimed k old,before.granted⟩
        · exact fun _ row found => .inr ⟨row,found,.inl rfl,.inl rfl⟩
        · exact fun _ mem => joins mem
        · intro k row found
          simp only [lookupInsert]
          split
          case isTrue here => exact .inr ⟨_,rfl,(free row (here ▸ found)).symm⟩
          case isFalse => exact .inr ⟨row,found,rfl⟩

theorem integrityInvites {invites : BTreeMap String InviteRow} (rooted : Integrity s → ∀ (k : String) (row : InviteRow),
    invites[k]? = some row → row.channel ∈ s.channels) (integrity : Integrity s) : Integrity { s with claimInvites := invites } where
  revocations := integrity.revocations
  members := integrity.members
  allowlist := integrity.allowlist
  subjects := integrity.subjects
  deposits := integrity.deposits
  invites := rooted integrity
  claimed := integrity.claimed
  granted := integrity.granted

theorem mintClaimInviteEnds (sha256 : Bytes → Hash) (channel : ChannelId) (owner : String) (holder : Holder) (noisePubkey : Key)
    (noiseAttestation : Signature) (label : Option String) (now : UInt64) (token : String) :
    Ends (mintClaimInvite sha256 channel owner holder noisePubkey noiseAttestation label now token) s (fun _ m => Allowed op s m) := by
  unfold mintClaimInvite
  refine endsSelect (allowedIdle _ s) ?_
  split
  case isTrue yes =>
    refine endsInsert (fun _ => allowedIdle _ s) (fun _ => endsPure (allowedBeside (integrityInvites ?_) rfl rfl rfl))
    intro integrity k row found
    rw [lookupInsert] at found
    split at found
    · rw [← Option.some.inj found]
      exact ownsKnown yes
    · exact integrity.invites k row found
  case isFalse => exact endsPure (allowedIdle _ s)

theorem consumeClaimInviteEnds (sha256 : Bytes → Hash) (token : String) (now : UInt64) :
    Ends (consumeClaimInvite sha256 token now) s (fun _ m => Allowed op s m) := by
  refine endsExecute (allowedIdle _ s) (endsPure (allowedBeside (integrityInvites ?_) rfl rfl rfl))
  intro integrity k row found
  rw [lookupUpdated] at found
  obtain ⟨old,here,same⟩ := Option.map_eq_some_iff.mp found
  have kept : row.channel = old.channel := by
    rw [← same]
    split <;> rfl
  rw [kept]
  exact integrity.invites k old here

theorem pruneClaimInvitesEnds (cutoff : UInt64) : Ends (pruneClaimInvites cutoff) s (fun _ m => Allowed op s m) := by
  refine endsLast (endsExecute (allowedIdle _ s) (endsPure (allowedBeside (integrityInvites ?_) rfl rfl rfl)))
  intro integrity k row found
  rw [lookupDeleted, Option.filter_eq_some_iff] at found
  exact integrity.invites k row found.1

theorem depositGrantEnds (channel : ChannelId) (owner : String) (holder : Holder) (grantHex : String) (now : UInt64) :
    Ends (depositGrant channel owner holder grantHex now) s (fun _ m => Allowed op s m) := by
  unfold depositGrant
  refine endsSelect (allowedIdle _ s) ?_
  split
  case isTrue yes =>
    refine endsSelect (allowedIdle _ s) ?_
    split
    case isTrue member =>
      refine endsExecute (allowedIdle _ s) (endsPure (allowedBeside (fun integrity => ?_) rfl rfl rfl))
      refine ⟨integrity.revocations,integrity.members,integrity.allowlist,integrity.subjects,rootedInsert integrity.deposits (ownsKnown yes) _,
        integrity.invites,integrity.claimed,?_⟩
      intro k mem
      obtain same | old := ExtTreeMap.mem_insert.mp mem
      · rw [← Std.LawfulEqOrd.eq_of_compare same]
        exact ExtTreeMap.contains_iff_mem.mp member
      · exact integrity.granted k old
    case isFalse => exact endsPure (allowedIdle _ s)
  case isFalse => exact endsPure (allowedIdle _ s)

theorem integrityRevocations {revocations : BTreeMap (ChannelId × Digest) RevocationRow} (rooted : Integrity s → Rooted revocations s.channels)
    (integrity : Integrity s) : Integrity { s with grantRevocations := revocations } where
  revocations := rooted integrity
  members := integrity.members
  allowlist := integrity.allowlist
  subjects := integrity.subjects
  deposits := integrity.deposits
  invites := integrity.invites
  claimed := integrity.claimed
  granted := integrity.granted

theorem revokeGrantEnds (channel : ChannelId) (grantDigest : Digest) (expiresAt now : UInt64) :
    Ends (revokeGrant channel grantDigest expiresAt now) s (fun _ m => Allowed op s m) := by
  have idle := allowedIdle op s
  unfold revokeGrant
  refine endsTransaction idle (endsSelect idle ?_)
  split
  case isTrue => exact endsPure idle
  case isFalse known =>
    have present : channel ∈ s.channels := by simpa [ExtTreeMap.contains_iff_mem] using known
    refine endsExecute idle ?_
    split
    case isTrue =>
      refine endsPure (allowedBeside (integrityRevocations ?_) rfl rfl rfl)
      exact fun integrity => rootedFewer integrity.revocations (fun _ mem => keptDeleted mem)
    case isFalse =>
      refine endsExecute idle (endsPure (allowedBeside (integrityRevocations ?_) rfl rfl rfl))
      intro integrity
      simp only [insertOrIgnore]
      split
      · exact rootedFewer integrity.revocations (fun _ mem => keptDeleted mem)
      · exact rootedInsert (rootedFewer integrity.revocations (fun _ mem => keptDeleted mem)) present _

theorem stepAllowed (sha256 : Bytes → Hash) (s : Tables) (call : Call) : Allowed call.op s (step sha256 s call).2 := by
  obtain ⟨op,faults⟩ := call
  cases op with
  | registerChannel => exact (registerEnds _ _ _ _ _ faults).1
  | deleteChannel => exact deleteChannelEnds _ _ faults
  | transferChannel => exact transferChannelEnds _ _ _ _ faults
  | addMember => exact addMemberEnds _ _ _ _ _ faults
  | removeMember => exact (removeMemberEnds _ _ _ faults).1
  | allowlistAdd => exact allowlistAddEnds _ _ _ _ faults
  | allowlistRemove => exact allowlistRemoveEnds _ _ _ faults
  | removeAllowlistEntriesForEmail => exact removeAllowlistEntriesEnds _ faults
  | claimViaAllowlist => exact (claimEnds _ _ _ _ _ _ _ faults).1
  | mintClaimInvite => exact mintClaimInviteEnds _ _ _ _ _ _ _ _ _ faults
  | consumeClaimInvite => exact consumeClaimInviteEnds _ _ _ faults
  | pruneClaimInvites => exact pruneClaimInvitesEnds _ faults
  | depositGrant => exact depositGrantEnds _ _ _ _ _ faults
  | revokeGrant => exact revokeGrantEnds _ _ _ _ faults

end Calls

section Runs
variable {sha256 : Bytes → Hash} {s : Tables} {k : ChannelId × Holder}

theorem emptyIntegrity : Integrity {} := by
  constructor <;> simp [Rooted]

theorem runIntegrity (sha256 : Bytes → Hash) (calls : List Call) : Integrity (run sha256 calls) :=
  Machine.runInvariant Integrity (fun s call integrity => (stepAllowed sha256 s call).integrity integrity) emptyIntegrity calls

/- No row of a dependent table speaks of the channel. -/
structure Vacant (channel : ChannelId) (s : Tables) : Prop where
  revocations : ∀ k ∈ s.grantRevocations, k.1 ≠ channel
  members : ∀ k ∈ s.members, k.1 ≠ channel
  allowlist : ∀ k ∈ s.allowlist, k.1 ≠ channel
  subjects : ∀ k ∈ s.memberSubjects, k.1 ≠ channel
  deposits : ∀ k ∈ s.grantDeposits, k.1 ≠ channel
  invites : ∀ (k : String) (row : InviteRow), s.claimInvites[k]? = some row → row.channel ≠ channel

theorem vacantRegistered (integrity : Integrity s) {channel : ChannelId} (absent : s.channels[channel]? = none) (row : ChannelRow) :
    Vacant channel { s with channels := s.channels.insert channel row } := by
  have other : ∀ {c : ChannelId}, c ∈ s.channels → c ≠ channel := by
    rintro c mem rfl
    rw [ExtTreeMap.mem_iff_isSome_getElem?, absent] at mem
    contradiction
  exact ⟨fun k mem => other (integrity.revocations k mem),fun k mem => other (integrity.members k mem),
    fun k mem => other (integrity.allowlist k mem),fun k mem => other (integrity.subjects k mem),
    fun k mem => other (integrity.deposits k mem),fun k row found => other (integrity.invites k row found)⟩

theorem runOutside {window : List Call} (outside : k ∉ s.members) (unadded : ∀ call ∈ window, ¬call.op.adds k) :
    k ∉ (Machine.run (step sha256) s window).members := by
  induction window generalizing s with
  | nil => exact outside
  | cons call rest ih =>
    refine ih (fun mem => ?_) (fun later mem => unadded later (List.mem_cons_of_mem call mem))
    obtain old | added := (stepAllowed sha256 s call).members k mem
    · exact outside old
    · exact unadded call List.mem_cons_self added

theorem runClaimed {window : List Call} {row : SubjectRow} (claimed : s.memberSubjects[k]? = some row)
    (unremoved : ∀ call ∈ window, ¬call.op.removes k) :
    ∃ next, (Machine.run (step sha256) s window).memberSubjects[k]? = some next ∧ next.subject = row.subject := by
  induction window generalizing s row with
  | nil => exact ⟨row,claimed,rfl⟩
  | cons call rest ih =>
    obtain ⟨_,removed⟩ | ⟨next,here,same⟩ := (stepAllowed sha256 s call).subjects k row claimed
    · exact absurd removed (unremoved call List.mem_cons_self)
    · obtain ⟨last,found,still⟩ := ih here (fun later mem => unremoved later (List.mem_cons_of_mem call mem))
      exact ⟨last,found,still.trans same⟩

/- Who is no member is not in what a subject fetches. -/
theorem fetchedMember (integrity : Integrity s) {channel : ChannelId} {subject : String} {faults : List Bool} {grants : List (Holder × Option String)}
    (fetched : (perform (depositedGrantsForSubject channel subject) s faults).1 = .ok grants) :
    ∀ g ∈ grants, (channel,g.1) ∈ s.members := by
  have ends : Ends (depositedGrantsForSubject channel subject) s (fun r _ => ∀ grants, r = .ok grants → ∀ g ∈ grants, (channel,g.1) ∈ s.members) := by
    refine endsLast (endsSelect nofun (endsPure ?_))
    rintro grants ⟨⟩ g mem
    obtain ⟨e,here,rfl⟩ := List.mem_map.mp mem
    obtain ⟨mem,mine⟩ := List.mem_filter.mp (List.mem_mergeSort.mp here)
    rw [Bool.and_eq_true, decide_eq_true_eq] at mine
    have found : s.memberSubjects[e.1]? = some e.2 := ExtTreeMap.mem_toList_iff_getElem?_eq_some.mp mem
    have claimed := integrity.claimed e.1 (by rw [ExtTreeMap.mem_iff_isSome_getElem?, found]; rfl)
    rwa [← mine.1]
  exact ends faults grants fetched

theorem settledOk {α : Type} {answer : α → Answer} {x : Work α} {faults : List Bool} {out : Answer}
    (ok : (settle answer x s faults).1 = .ok out) : ∃ a, (perform x s faults).1 = .ok a ∧ answer a = out := Machine.mapOk.mp ok

/- Rows go with their channel and grants with their member, whoever calls what; and a claimed holder stays with its subject. -/
theorem channelIntegrity (sha256 : Bytes → Hash) (calls : List Call) :
    let s := run sha256 calls
    Integrity s ∧
    (∀ call, Allowed call.op s (step sha256 s call).2) ∧
    (∀ channel operatorPubkey owner max allowRekey faults,
      (step sha256 s ⟨.registerChannel channel operatorPubkey owner max allowRekey,faults⟩).1 = .ok (.registration .registered) →
        Vacant channel (step sha256 s ⟨.registerChannel channel operatorPubkey owner max allowRekey,faults⟩).2) ∧
    (∀ channel owner holder faults window, (step sha256 s ⟨.removeMember channel owner holder,faults⟩).1 = .ok (.done true) →
      (∀ call ∈ window, ¬call.op.adds (channel,holder)) →
      let later := run sha256 (calls ++ ⟨.removeMember channel owner holder,faults⟩ :: window)
      (channel,holder) ∉ later.members ∧
      ∀ subject faults' grants, (perform (depositedGrantsForSubject channel subject) later faults').1 = .ok grants → ∀ g ∈ grants, g.1 ≠ holder) ∧
    (∀ channel email holder noisePubkey noiseAttestation now name faults (row : SubjectRow),
      s.memberSubjects[(channel,holder)]? = some row → row.subject ≠ name →
      let claim : Call := ⟨.claimViaAllowlist channel email holder noisePubkey noiseAttestation now (some name),faults⟩
      (step sha256 s claim).2 = s ∧ (step sha256 s claim).1 ≠ .ok (.claim .claimed)) ∧
    ∀ k (row : SubjectRow) window, s.memberSubjects[k]? = some row → (∀ call ∈ window, ¬call.op.removes k) →
      ∃ next, (run sha256 (calls ++ window)).memberSubjects[k]? = some next ∧ next.subject = row.subject := by
  intro s
  have integrity : Integrity s := runIntegrity sha256 calls
  refine ⟨integrity,stepAllowed sha256 s,?_,?_,?_,?_⟩
  · intro channel operatorPubkey owner max allowRekey faults registered
    have ends := (registerEnds (s := s) channel operatorPubkey owner max allowRekey faults).2
    obtain ⟨outcome,ok,same⟩ := settledOk (x := registerChannelIfUnderOwnedLimit channel operatorPubkey owner max allowRekey) registered
    obtain ⟨absent,next⟩ := ends (by rw [ok, (Answer.registration.inj same)])
    show Vacant channel (perform (registerChannelIfUnderOwnedLimit channel operatorPubkey owner max allowRekey) s faults).2
    rw [next]
    exact vacantRegistered integrity absent _
  · intro channel owner holder faults window removed unadded later
    obtain ⟨yes,ok,same⟩ := settledOk (x := removeMember channel owner holder) removed
    have gone := (removeMemberEnds (s := s) channel owner holder faults).2 (by rw [ok, Answer.done.inj same])
    have outside : (channel,holder) ∉ later.members := by
      have outside : (channel,holder) ∉ (perform (removeMember channel owner holder) s faults).2.members := by
        rw [gone]
        simp [withoutMember]
      simp only [later, run, Machine.runAppend]
      exact runOutside (s := (perform (removeMember channel owner holder) s faults).2) outside unadded
    refine ⟨outside,?_⟩
    rintro subject faults' grants fetched g mem rfl
    exact outside (fetchedMember (runIntegrity sha256 _) fetched g mem)
  · intro channel email holder noisePubkey noiseAttestation now name faults row claimed other claim
    obtain ⟨same,refused⟩ := (claimEnds channel email holder noisePubkey noiseAttestation now (some name) faults).2 name row rfl claimed other
    refine ⟨same,?_⟩
    intro ok
    obtain ⟨outcome,here,same⟩ := settledOk (x := claimViaAllowlist channel email holder noisePubkey noiseAttestation now (some name)) ok
    exact refused (by rw [here, Answer.claim.inj same])
  · intro k row window claimed unremoved
    rw [run, Machine.runAppend]
    exact runClaimed claimed unremoved

end Runs

/- A removed holder that joins again finds its old grant gone. -/
example :
    let channel : ChannelId := .replicate 32 1
    let holder : Holder := .replicate 32 2
    let join : Call := ⟨.claimViaAllowlist channel "M@x" holder (.replicate 32 3) (.replicate 64 4) 5 (some "m"),[]⟩
    let calls : List Call := [⟨.registerChannel channel (.replicate 32 6) "o" 1 false,[]⟩,⟨.allowlistAdd channel "o" "m@x" 4,[]⟩,join,
      ⟨.depositGrant channel "o" holder "ab" 6,[]⟩,⟨.removeMember channel "o" holder,[]⟩,join]
    (perform (depositedGrantsForSubject channel "m") (run (fun _ => .replicate 32 0) calls) []).1.toOption = some [(holder,none)] := by
  decide +kernel

end CadsTunnel.ChannelStore
