import CadsTunnel.Hostnames
import CadsTunnel.TunnelStore

/-! Share links: a token that lets a visitor through the login gate of one hostname until
it expires, once or as often as he likes. The store keeps the hash of the token, and looks
at the tunnel again whenever the link is used. -/
namespace CadsTunnel.ShareLinks
open OrderedMap Words Sql TunnelStore
open ChannelStore (claimInviteTokenHash)
open Std (ExtTreeMap)

def maxActiveShareLinksPerTunnel : Nat := 50

def shareLinkPruneAfterSecs : UInt64 := 7 * 24 * 60 * 60

def shareLinkTokenHash (sha256 : Bytes → Hash) (token : String) : String := claimInviteTokenHash sha256 token

def isActive (l : ShareLinkRow) (now : Int) : Bool := l.revokedAt.isNone && l.expiresAt > now && !(l.singleUse && l.usedAt.isSome)

inductive ShareLinkMint where
  | minted (linkId token hostname : String)
  | notEligible
  | tooMany
  deriving DecidableEq

structure RedeemedLink where
  linkId : String
  tunnelId : String
  singleUse : Bool
  expiresAt : UInt64
  deriving DecidableEq

def lapsed (now : UInt64) (_ : String) (l : ShareLinkRow) : Bool :=
  let cutoff := asI64 (saturatingSub now shareLinkPruneAfterSecs)
  l.expiresAt < cutoff || l.revokedAt.any (· < cutoff)

/- The hashes of the tokens stand under a unique index. -/
def insertShareLink (linkId : String) (row : ShareLinkRow) : Work Unit :=
  statement (fun s =>
    if hasRow (fun _ l => l.tokenHash = row.tokenHash) s.shareLinks then .error .constraint
    else (insertRow linkId row s.shareLinks).map (fun rows => ((),{ s with shareLinks := rows })))

/- The id and the token are the texts of what the random generator gives. -/
def mintShareLink (sha256 : Bytes → Hash) (subject tunnelId : String) (label : Option String) (ttlSecs : UInt64) (singleUse : Bool) (now : UInt64)
    (linkId token : String) : Work ShareLinkMint :=
  transaction (do
    execute (fun s => ((),{ s with shareLinks := (deleteWhere (lapsed now) s.shareLinks).2 }))
    let row ← select (owned tunnelId subject)
    match row.bind TunnelRow.hostname with
    | none => pure (.rollback .notEligible)
    | some hostname =>
      let active ← select (fun s => (s.shareLinks.filter (fun _ l => l.tunnelId = tunnelId && l.revokedAt.isNone && l.expiresAt > asI64 now
        && (!l.singleUse || l.usedAt.isNone))).size)
      if maxActiveShareLinksPerTunnel ≤ active then pure (.rollback .tooMany)
      else
        let expiresAt := saturatingAdd now (max ttlSecs 1)
        insertShareLink linkId {
          tunnelId, subject, hostname, tokenHash := shareLinkTokenHash sha256 token
          label := (label.map (fun l => .ofList (Hostnames.trim l.toList))).filter (· ≠ "")
          expiresAt := asI64 expiresAt, singleUse, createdAt := asI64 now }
        pure (.commit (.minted linkId token hostname)))

def revokeShareLink (subject tunnelId linkId : String) (now : UInt64) : Work Bool := do
  let n ← execute (fun s =>
    let (n,rows) := updateWhere (fun k l => k = linkId && (l.subject = subject && l.tunnelId = tunnelId && l.revokedAt.isNone))
      (fun l => { l with revokedAt := some (asI64 now) }) s.shareLinks
    (n,{ s with shareLinks := rows }))
  pure (n > 0)

/- The tunnel of the link is still its owner's, and has the hostname. -/
def honored (hostname : String) (s : Tables) (l : ShareLinkRow) : Bool :=
  nocase l.hostname hostname &&
    s.tunnels[l.tunnelId]?.any (fun t => t.subject = l.subject && t.hostname.any (fun h => nocase h l.hostname))

def redeemShareLink (sha256 : Bytes → Hash) (hostname token : String) (now : UInt64) : Work (Option RedeemedLink) :=
  transaction (do
    let row ← select (fun s => firstRow (fun _ l => l.tokenHash = shareLinkTokenHash sha256 token && honored hostname s l) s.shareLinks)
    match row with
    | none => pure (.rollback none)
    | some (linkId,l) =>
      if l.revokedAt.isSome || l.expiresAt ≤ asI64 now || l.singleUse && l.usedAt.isSome then pure (.rollback none)
      else
        let redeemed : RedeemedLink := ⟨linkId,l.tunnelId,l.singleUse,asU64 l.expiresAt⟩
        if l.singleUse then
          let n ← execute (fun s =>
            let (n,rows) := updateWhere (fun k l => k = linkId && l.usedAt.isNone) (fun l => { l with usedAt := some (asI64 now) }) s.shareLinks
            (n,{ s with shareLinks := rows }))
          if n ≠ 1 then pure (.rollback none) else pure (.commit (some redeemed))
        else pure (.commit (some redeemed)))

def shareLinkActive (linkId hostname : String) (now : UInt64) : Work Bool := do
  let row ← select (fun s => s.shareLinks[linkId]?.filter (fun l => honored hostname s l && l.revokedAt.isNone && l.expiresAt > asI64 now))
  pure row.isSome

def pruneShareLinks (now : UInt64) : Work Nat :=
  execute (fun s =>
    let (n,rows) := deleteWhere (lapsed now) s.shareLinks
    (n,{ s with shareLinks := rows }))

inductive LinkOp where
  | mint (subject tunnelId : String) (label : Option String) (ttlSecs : UInt64) (singleUse : Bool) (now : UInt64) (linkId token : String)
  | revoke (subject tunnelId linkId : String) (now : UInt64)
  | redeem (hostname token : String) (now : UInt64)
  | active (linkId hostname : String) (now : UInt64)
  | prune (now : UInt64)

inductive LinkAnswer where
  | minted (outcome : ShareLinkMint)
  | revoked (done : Bool)
  | redeemed (link : Option RedeemedLink)
  | active (yes : Bool)
  | pruned (n : Nat)
  deriving DecidableEq

variable (sha256 : Bytes → Hash)

def LinkOp.work : LinkOp → Work LinkAnswer
  | .mint subject tunnelId label ttlSecs singleUse now linkId token => do
    let outcome ← mintShareLink sha256 subject tunnelId label ttlSecs singleUse now linkId token
    pure (.minted outcome)
  | .revoke subject tunnelId linkId now => do
    let done ← revokeShareLink subject tunnelId linkId now
    pure (.revoked done)
  | .redeem hostname token now => do
    let link ← redeemShareLink sha256 hostname token now
    pure (.redeemed link)
  | .active linkId hostname now => do
    let yes ← shareLinkActive linkId hostname now
    pure (.active yes)
  | .prune now => do
    let n ← pruneShareLinks now
    pure (.pruned n)

inductive Op where
  | lifecycle (op : Lifecycle)
  | link (op : LinkOp)

inductive Answer where
  | lifecycle (answer : LifecycleAnswer)
  | link (answer : LinkAnswer)
  deriving DecidableEq

structure Call where
  op : Op
  faults : List Bool := []

def Op.work : Op → Work Answer
  | .lifecycle op => do
    let answer ← op.work
    pure (.lifecycle answer)
  | .link op => do
    let answer ← op.work sha256
    pure (.link answer)

def step (s : Tables) (call : Call) : Except SqlError Answer × Tables := perform (call.op.work sha256) s call.faults

def run (calls : List Call) : Tables := Machine.run (step sha256) {} calls

/- The clock that an operation is given. -/
def Op.now : Op → UInt64
  | .lifecycle (.revoke _ _ now) => now
  | .lifecycle _ => 0
  | .link (.mint _ _ _ _ _ now _ _) => now
  | .link (.revoke _ _ _ now) => now
  | .link (.redeem _ _ now) => now
  | .link (.active _ _ now) => now
  | .link (.prune now) => now

def activeLinks (tunnelId : String) (now : Int) (s : Tables) : Nat :=
  (s.shareLinks.filter (fun _ l => l.tunnelId = tunnelId && isActive l now)).size

/- The row of a new link. -/
def mintedRow (subject tunnelId : String) (label : Option String) (ttlSecs : UInt64) (singleUse : Bool) (now : UInt64) (token hostname : String) :
    ShareLinkRow where
  tunnelId := tunnelId
  subject := subject
  hostname := hostname
  tokenHash := shareLinkTokenHash sha256 token
  label := (label.map (fun l => .ofList (Hostnames.trim l.toList))).filter (· ≠ "")
  expiresAt := asI64 (saturatingAdd now (max ttlSecs 1))
  singleUse := singleUse
  createdAt := asI64 now

def LinkAnswer.positive : LinkAnswer → Bool
  | .minted (.minted ..) => true
  | .minted _ => false
  | .revoked done => done
  | .redeemed link => link.isSome
  | .active yes => yes
  | .pruned _ => false

/- What an operation on links may do, and answer. -/
inductive LinkEffect (s : Tables) : LinkOp → Except SqlError LinkAnswer → Tables → Prop where
  | idle {op : LinkOp} {r : Except SqlError LinkAnswer} (negative : ∀ answer, r = .ok answer → answer.positive = false) : LinkEffect s op r s
  | minted {subject tunnelId : String} {label : Option String} {ttlSecs : UInt64} {singleUse : Bool} {now : UInt64} {linkId token : String}
      {hostname : String} {tunnel : TunnelRow} (mine : owned tunnelId subject s = some tunnel) (named : tunnel.hostname = some hostname)
      (few : activeLinks tunnelId (asI64 now) { s with shareLinks := (deleteWhere (lapsed now) s.shareLinks).2 } < maxActiveShareLinksPerTunnel)
      (absent : (deleteWhere (lapsed now) s.shareLinks).2[linkId]? = none)
      (free : ∀ (k : String) (l : ShareLinkRow), (deleteWhere (lapsed now) s.shareLinks).2[k]? = some l →
        l.tokenHash ≠ shareLinkTokenHash sha256 token) :
      LinkEffect s (.mint subject tunnelId label ttlSecs singleUse now linkId token) (.ok (.minted (.minted linkId token hostname)))
        { s with
          shareLinks := (deleteWhere (lapsed now) s.shareLinks).2.insert linkId
            (mintedRow sha256 subject tunnelId label ttlSecs singleUse now token hostname) }
  | revoked {subject tunnelId linkId : String} {now : UInt64} {l : ShareLinkRow} (found : s.shareLinks[linkId]? = some l) :
      LinkEffect s (.revoke subject tunnelId linkId now) (.ok (.revoked true))
        { s with shareLinks := s.shareLinks.insert linkId { l with revokedAt := some (asI64 now) } }
  | redeemed {hostname token linkId : String} {now : UInt64} {l : ShareLinkRow} (found : s.shareLinks[linkId]? = some l)
      (same : l.tokenHash = shareLinkTokenHash sha256 token) (honors : honored hostname s l) (live : isActive l (asI64 now)) :
      LinkEffect s (.redeem hostname token now) (.ok (.redeemed (some ⟨linkId,l.tunnelId,l.singleUse,asU64 l.expiresAt⟩)))
        { s with shareLinks := if l.singleUse then s.shareLinks.insert linkId { l with usedAt := some (asI64 now) } else s.shareLinks }
  | active {linkId hostname : String} {now : UInt64} {l : ShareLinkRow} (found : s.shareLinks[linkId]? = some l) (honors : honored hostname s l)
      (unrevoked : l.revokedAt = none) (live : asI64 now < l.expiresAt) : LinkEffect s (.active linkId hostname now) (.ok (.active true)) s
  | pruned {now : UInt64} {r : Except SqlError LinkAnswer} :
      LinkEffect s (.prune now) r { s with shareLinks := (deleteWhere (lapsed now) s.shareLinks).2 }

section Calls
variable {sha256 : Bytes → Hash} {s : Tables}

theorem isActiveIff {l : ShareLinkRow} {now : Int} :
    isActive l now ↔ l.revokedAt = none ∧ now < l.expiresAt ∧ (l.singleUse = true → l.usedAt = none) := by
  cases single : l.singleUse <;> simp [isActive, single, and_assoc]

/- The condition of the count is the one on a row. -/
theorem activeCount (tunnelId : String) (now : UInt64) (s : Tables) :
    (s.shareLinks.filter (fun _ l => l.tunnelId = tunnelId && l.revokedAt.isNone && l.expiresAt > asI64 now
      && (!l.singleUse || l.usedAt.isNone))).size = activeLinks tunnelId (asI64 now) s := by
  unfold activeLinks isActive
  refine congrArg (fun p => (s.shareLinks.filter p).size) ?_
  funext k l
  cases l.usedAt <;> cases l.singleUse <;> simp [Bool.and_assoc]

theorem mintEnds (subject tunnelId : String) (label : Option String) (ttlSecs : UInt64) (singleUse : Bool) (now : UInt64) (linkId token : String) :
    Ends (mintShareLink sha256 subject tunnelId label ttlSecs singleUse now linkId token) s
      (fun r m => LinkEffect sha256 s (.mint subject tunnelId label ttlSecs singleUse now linkId token) (r.map .minted) m) := by
  have failed : ∀ e, LinkEffect sha256 s (.mint subject tunnelId label ttlSecs singleUse now linkId token) (.error e) s := fun e => .idle nofun
  unfold mintShareLink
  refine endsTransaction (failed _) (endsExecute (failed _) (endsSelect (failed _) ?_))
  split
  case h_1 => exact endsPure (.idle (by rintro _ ⟨⟩; rfl))
  case h_2 hostname named =>
    obtain ⟨tunnel,mine,named⟩ := Option.bind_eq_some_iff.mp named
    refine endsSelect (failed _) ?_
    split
    case isTrue => exact endsPure (.idle (by rintro _ ⟨⟩; rfl))
    case isFalse few =>
      rw [Nat.not_le, activeCount] at few
      refine endsInsertUnless failed ?_
      intro absent free
      refine endsPure (.minted mine named few absent ?_)
      intro k l here same
      refine absurd free (Bool.not_eq_false _ ▸ hasRowIff.mpr ⟨k,l,here,?_⟩)
      exact decide_eq_true same

theorem revokeLinkEnds (subject tunnelId linkId : String) (now : UInt64) :
    Ends (revokeShareLink subject tunnelId linkId now) s
      (fun r m => LinkEffect sha256 s (.revoke subject tunnelId linkId now) (r.map .revoked) m) := by
  unfold revokeShareLink
  refine endsExecute (.idle nofun) (endsPure ?_)
  dsimp only
  rw [updatedOne, updateWhere, touchedOne]
  cases mine : s.shareLinks[linkId]?.filter (fun l => l.subject = subject && l.tunnelId = tunnelId && l.revokedAt.isNone) with
  | none => exact .idle (by rintro _ ⟨⟩; rfl)
  | some l => exact .revoked (Option.filter_eq_some_iff.mp mine).1

theorem redeemEnds (hostname token : String) (now : UInt64) :
    Ends (redeemShareLink sha256 hostname token now) s
      (fun r m => LinkEffect sha256 s (.redeem hostname token now) (r.map .redeemed) m) := by
  have failed : ∀ e, LinkEffect sha256 s (.redeem hostname token now) (.error e) s := fun e => .idle nofun
  have refused : LinkEffect sha256 s (.redeem hostname token now) (.ok (.redeemed none)) s := .idle (by rintro _ ⟨⟩; rfl)
  unfold redeemShareLink
  refine endsTransaction (failed _) (endsSelect (failed _) ?_)
  split
  case h_1 => exact endsPure refused
  case h_2 linkId l found =>
    obtain ⟨found,hit⟩ := firstRowSome found
    rw [Bool.and_eq_true, decide_eq_true_eq] at hit
    split
    case isTrue => exact endsPure refused
    case isFalse live =>
      have alive : isActive l (asI64 now) := by
        rw [isActiveIff]
        simpa [and_assoc] using live
      have effect : LinkEffect sha256 s (.redeem hostname token now) _ _ := .redeemed found hit.1 hit.2 alive
      split
      case isTrue single =>
        rw [if_pos single] at effect
        refine endsExecute (failed _) ?_
        have unused : s.shareLinks[linkId]?.filter (fun l => l.usedAt.isNone) = some l := by
          rw [found, Option.filter_some, if_pos]
          simpa using (isActiveIff.mp alive).2.2 single
        dsimp only
        rw [updatedOne, updateWhere, touchedOne, unused]
        exact endsPure effect
      case isFalse multi =>
        rw [if_neg multi] at effect
        exact endsPure effect

theorem activeEnds (linkId hostname : String) (now : UInt64) :
    Ends (shareLinkActive linkId hostname now) s (fun r m => LinkEffect sha256 s (.active linkId hostname now) (r.map .active) m) := by
  unfold shareLinkActive
  refine endsSelect (.idle nofun) (endsPure ?_)
  cases mine : s.shareLinks[linkId]?.filter (fun l => honored hostname s l && l.revokedAt.isNone && l.expiresAt > asI64 now) with
  | none => exact .idle (by rintro _ ⟨⟩; rfl)
  | some l =>
    obtain ⟨found,hit⟩ := Option.filter_eq_some_iff.mp mine
    rw [Bool.and_eq_true, Bool.and_eq_true, Option.isNone_iff_eq_none, decide_eq_true_eq] at hit
    exact .active found hit.1.1 hit.1.2 hit.2

theorem linkEnds (op : LinkOp) : Ends (op.work sha256) s (fun r m => LinkEffect sha256 s op r m) := by
  cases op with
  | mint => exact endsGives (mintEnds _ _ _ _ _ _ _ _)
  | revoke => exact endsGives (revokeLinkEnds _ _ _ _)
  | redeem => exact endsGives (redeemEnds _ _ _)
  | active => exact endsGives (activeEnds _ _ _)
  | prune now =>
    refine endsGives (endsLast (endsExecute (.idle nofun) (endsPure ?_)))
    exact .pruned

/- What a call does: it moves tunnels, or it works on links. -/
inductive Effect (sha256 : Bytes → Hash) (s : Tables) : Op → Except SqlError Answer → Tables → Prop where
  | moved {op : Lifecycle} {r : Except SqlError LifecycleAnswer} {m : Tables} (moved : Moved s m) :
      Effect sha256 s (.lifecycle op) (r.map .lifecycle) m
  | linked {op : LinkOp} {r : Except SqlError LinkAnswer} {m : Tables} (effect : LinkEffect sha256 s op r m) :
      Effect sha256 s (.link op) (r.map .link) m

theorem stepEffect (sha256 : Bytes → Hash) (s : Tables) (call : Call) :
    Effect sha256 s call.op (step sha256 s call).1 (step sha256 s call).2 := by
  obtain ⟨op,faults⟩ := call
  cases op with
  | lifecycle op =>
    have ends : Ends (op.work >>= fun answer => pure (Answer.lifecycle answer)) s (fun r m => Effect sha256 s (.lifecycle op) r m) :=
      endsGives (endsMono (lifecycleEnds op) (fun _ _ moved => .moved moved))
    exact ends faults
  | link op =>
    have ends : Ends (op.work sha256 >>= fun answer => pure (Answer.link answer)) s (fun r m => Effect sha256 s (.link op) r m) :=
      endsGives (endsMono (linkEnds op) (fun _ _ effect => .linked effect))
    exact ends faults

end Calls
section Links
variable {sha256 : Bytes → Hash} {s m : Tables}

/- What a row of a link keeps for as long as it is there. -/
structure Aged (old new : ShareLinkRow) : Prop where
  tunnelId : new.tunnelId = old.tunnelId
  hostname : new.hostname = old.hostname
  tokenHash : new.tokenHash = old.tokenHash
  expiresAt : new.expiresAt = old.expiresAt
  singleUse : new.singleUse = old.singleUse
  used : old.usedAt.isSome → new.usedAt.isSome
  revoked : old.revokedAt.isSome → new.revokedAt.isSome

theorem agedRefl (l : ShareLinkRow) : Aged l l := ⟨rfl,rfl,rfl,rfl,rfl,id,id⟩

theorem agedTrans {a b c : ShareLinkRow} (first : Aged a b) (second : Aged b c) : Aged a c where
  tunnelId := second.tunnelId.trans first.tunnelId
  hostname := second.hostname.trans first.hostname
  tokenHash := second.tokenHash.trans first.tokenHash
  expiresAt := second.expiresAt.trans first.expiresAt
  singleUse := second.singleUse.trans first.singleUse
  used used := second.used (first.used used)
  revoked revoked := second.revoked (first.revoked revoked)

theorem agedActive {old new : ShareLinkRow} (aged : Aged old new) {now : Int} (active : isActive new now) : isActive old now := by
  obtain ⟨unrevoked,live,unused⟩ := isActiveIff.mp active
  have unrevoked : old.revokedAt = none := by
    by_contra revoked
    have still := aged.revoked (Option.isSome_iff_ne_none.mpr revoked)
    rw [unrevoked] at still
    contradiction
  refine isActiveIff.mpr ⟨unrevoked,aged.expiresAt ▸ live,?_⟩
  intro single
  by_contra used
  have still := aged.used (Option.isSome_iff_ne_none.mpr used)
  rw [unused (aged.singleUse.trans single)] at still
  contradiction

theorem movedRow {linkId : String} {l : ShareLinkRow} (moved : Moved s m) (here : m.shareLinks[linkId]? = some l) :
    ∃ old, s.shareLinks[linkId]? = some old ∧ Aged old l := by
  cases moved with
  | idle => exact ⟨l,here,agedRefl l⟩
  | created => exact ⟨l,here,agedRefl l⟩
  | revoked =>
    simp only [Tables.revoked, lookupDeleted, Option.filter_eq_some_iff] at here
    exact ⟨l,here.1,agedRefl l⟩
  | transferred =>
    simp only [Tables.transferred, lookupUpdated, Option.map_eq_some_iff] at here
    obtain ⟨old,found,rfl⟩ := here
    refine ⟨old,found,?_⟩
    split
    · exact ⟨rfl,rfl,rfl,rfl,rfl,id,id⟩
    · exact agedRefl old

theorem linkRow {op : LinkOp} {r : Except SqlError LinkAnswer} {linkId : String} {l : ShareLinkRow} (effect : LinkEffect sha256 s op r m)
    (here : m.shareLinks[linkId]? = some l) : (∃ old, s.shareLinks[linkId]? = some old ∧ Aged old l) ∨
      ∃ subject tunnelId label ttlSecs singleUse now token hostname, op = .mint subject tunnelId label ttlSecs singleUse now linkId token ∧
        r = .ok (.minted (.minted linkId token hostname)) ∧ l = mintedRow sha256 subject tunnelId label ttlSecs singleUse now token hostname := by
  cases effect with
  | idle => exact .inl ⟨l,here,agedRefl l⟩
  | @minted _ _ _ _ _ _ minted =>
    dsimp only at here
    rw [lookupInsert] at here
    split at here
    case isTrue same =>
      subst same
      exact .inr ⟨_,_,_,_,_,_,_,_,rfl,rfl,(Option.some.inj here).symm⟩
    case isFalse =>
      rw [lookupDeleted, Option.filter_eq_some_iff] at here
      exact .inl ⟨l,here.1,agedRefl l⟩
  | @revoked _ _ revoked _ old found =>
    dsimp only at here
    rw [lookupInsert] at here
    split at here
    case isTrue same =>
      cases Option.some.inj here
      exact .inl ⟨old,same ▸ found,rfl,rfl,rfl,rfl,rfl,id,fun _ => rfl⟩
    case isFalse => exact .inl ⟨l,here,agedRefl l⟩
  | @redeemed _ _ redeemed _ old found =>
    dsimp only at here
    split at here
    case isTrue =>
      rw [lookupInsert] at here
      split at here
      case isTrue same =>
        cases Option.some.inj here
        exact .inl ⟨old,same ▸ found,rfl,rfl,rfl,rfl,rfl,fun _ => rfl,id⟩
      case isFalse => exact .inl ⟨l,here,agedRefl l⟩
    case isFalse => exact .inl ⟨l,here,agedRefl l⟩
  | active => exact .inl ⟨l,here,agedRefl l⟩
  | pruned =>
    rw [lookupDeleted, Option.filter_eq_some_iff] at here
    exact .inl ⟨l,here.1,agedRefl l⟩

/- A call that hands out a link. -/
def Mints (sha256 : Bytes → Hash) (s : Tables) (call : Call) (linkId tokenHash : String) (expiresAt : UInt64) : Prop :=
  ∃ subject tunnelId label ttlSecs singleUse now token hostname, call.op = .link (.mint subject tunnelId label ttlSecs singleUse now linkId token) ∧
    (step sha256 s call).1 = .ok (.link (.minted (.minted linkId token hostname))) ∧ tokenHash = shareLinkTokenHash sha256 token ∧
    expiresAt = saturatingAdd now (max ttlSecs 1)

def Redeems (sha256 : Bytes → Hash) (s : Tables) (call : Call) (tokenHash : String) (link : RedeemedLink) : Prop :=
  ∃ hostname token now, call.op = .link (.redeem hostname token now) ∧ (step sha256 s call).1 = .ok (.link (.redeemed (some link))) ∧
    tokenHash = shareLinkTokenHash sha256 token

def Active (sha256 : Bytes → Hash) (s : Tables) (call : Call) (linkId : String) : Prop :=
  ∃ hostname now, call.op = .link (.active linkId hostname now) ∧ (step sha256 s call).1 = .ok (.link (.active true))

/- A row after a call is an older one, or the one of the link that the call has minted. -/
theorem stepRow {call : Call} {linkId : String} {l : ShareLinkRow} (here : (step sha256 s call).2.shareLinks[linkId]? = some l) :
    (∃ old, s.shareLinks[linkId]? = some old ∧ Aged old l) ∨
      ∃ expiry, Mints sha256 s call linkId l.tokenHash expiry ∧ l.expiresAt = asI64 expiry := by
  have effect := stepEffect sha256 s call
  obtain ⟨⟨answer,m⟩,out⟩ : ∃ out, step sha256 s call = out := ⟨_,rfl⟩
  rw [out] at effect here
  obtain ⟨op,faults⟩ := call
  cases effect with
  | moved moved => exact .inl (movedRow moved here)
  | @linked op r m effect =>
    obtain old | ⟨subject,tunnelId,label,ttlSecs,singleUse,now,token,hostname,rfl,rfl,rfl⟩ := linkRow effect here
    · exact .inl old
    · exact .inr ⟨_,⟨subject,tunnelId,label,ttlSecs,singleUse,now,token,hostname,rfl,by rw [out],rfl,rfl⟩,rfl⟩

theorem linkEffect {call : Call} {op : LinkOp} {answer : LinkAnswer} (asks : call.op = .link op)
    (ok : (step sha256 s call).1 = .ok (.link answer)) : LinkEffect sha256 s op (.ok answer) (step sha256 s call).2 := by
  have effect := stepEffect sha256 s call
  rw [asks, ok] at effect
  generalize (step sha256 s call).2 = m at effect
  generalize out : Except.ok (Answer.link answer) = reply at effect
  cases effect with
  | @linked _ r _ effect =>
    cases r with
    | error e => contradiction
    | ok a =>
      cases out
      exact effect

theorem redeemsRow {call : Call} {tokenHash : String} {link : RedeemedLink} (redeems : Redeems sha256 s call tokenHash link) :
    ∃ l, s.shareLinks[link.linkId]? = some l ∧ l.tokenHash = tokenHash ∧ isActive l (asI64 call.op.now) ∧
      link = ⟨link.linkId,l.tunnelId,l.singleUse,asU64 l.expiresAt⟩ ∧ (step sha256 s call).2.shareLinks =
        if l.singleUse then s.shareLinks.insert link.linkId { l with usedAt := some (asI64 call.op.now) } else s.shareLinks := by
  obtain ⟨hostname,token,now,asks,ok,rfl⟩ := redeems
  have effect := linkEffect asks ok
  generalize (step sha256 s call).2 = m at effect
  have time : call.op.now = now := by rw [asks]; rfl
  rw [time]
  cases effect with
  | idle negative => exact absurd (negative _ rfl) (by simp [LinkAnswer.positive])
  | redeemed found same honors live => exact ⟨_,found,same,live,rfl,rfl⟩

theorem activeRow {call : Call} {linkId : String} (active : Active sha256 s call linkId) :
    ∃ l, s.shareLinks[linkId]? = some l ∧ l.revokedAt = none ∧ asI64 call.op.now < l.expiresAt := by
  obtain ⟨hostname,now,asks,ok⟩ := active
  have effect := linkEffect asks ok
  generalize (step sha256 s call).2 = m at effect
  have time : call.op.now = now := by rw [asks]; rfl
  rw [time]
  cases effect with
  | idle negative => exact absurd (negative _ rfl) (by simp [LinkAnswer.positive])
  | active found honors unrevoked live => exact ⟨_,found,unrevoked,live⟩

/- Every link is a link of its tunnel's owner, and no two have the same token. -/
structure Kept (s : Tables) : Prop where
  follows : Follows (fun _ l => l.tunnelId) ShareLinkRow.subject s.shareLinks s.tunnels
  unique : ∀ (a b : String) (l k : ShareLinkRow), s.shareLinks[a]? = some l → s.shareLinks[b]? = some k → l.tokenHash = k.tokenHash → a = b

theorem keptAged (unique : ∀ (a b : String) (l k : ShareLinkRow), s.shareLinks[a]? = some l → s.shareLinks[b]? = some k →
    l.tokenHash = k.tokenHash → a = b)
    (rows : ∀ (a : String) (l : ShareLinkRow), m.shareLinks[a]? = some l → ∃ old, s.shareLinks[a]? = some old ∧ Aged old l)
    (a b : String) (l k : ShareLinkRow) (here : m.shareLinks[a]? = some l) (there : m.shareLinks[b]? = some k) (same : l.tokenHash = k.tokenHash) :
    a = b := by
  obtain ⟨old,found,aged⟩ := rows a l here
  obtain ⟨old',found',aged'⟩ := rows b k there
  exact unique a b old old' found found' (aged.tokenHash.symm.trans (same.trans aged'.tokenHash))

theorem keptMoved (kept : Kept s) (moved : Moved s m) : Kept m := by
  refine ⟨?_,keptAged kept.unique (fun a l => movedRow moved)⟩
  cases moved with
  | idle => exact kept.follows
  | created absent => exact followsCreated kept.follows absent _
  | revoked => exact followsRevoked kept.follows _
  | @transferred id row toSubject => exact followsTransferred kept.follows id _ (fun _ _ => rfl) (fun _ => rfl)

theorem keptSwept (kept : Kept s) (p : String → ShareLinkRow → Bool) : Kept { s with shareLinks := (deleteWhere p s.shareLinks).2 } := by
  have rows : ∀ (a : String) (l : ShareLinkRow), (deleteWhere p s.shareLinks).2[a]? = some l → s.shareLinks[a]? = some l := by
    intro a l here
    rw [lookupDeleted, Option.filter_eq_some_iff] at here
    exact here.1
  refine ⟨followsKept kept.follows (fun a l here => ⟨l,rows a l here,rfl,rfl⟩),?_⟩
  exact keptAged (m := { s with shareLinks := (deleteWhere p s.shareLinks).2 }) kept.unique (fun a l here => ⟨l,rows a l here,agedRefl l⟩)

/- Another state of the same link. -/
theorem keptChanged (kept : Kept s) {linkId : String} {old l : ShareLinkRow} (found : s.shareLinks[linkId]? = some old) (aged : Aged old l)
    (subject : l.subject = old.subject) : Kept { s with shareLinks := s.shareLinks.insert linkId l } := by
  obtain ⟨tunnel,there,mine⟩ := kept.follows linkId old found
  refine ⟨followsInsert kept.follows (aged.tunnelId ▸ there) (mine.trans subject.symm),?_⟩
  refine keptAged (m := { s with shareLinks := s.shareLinks.insert linkId l }) kept.unique ?_
  intro a k here
  dsimp only at here
  rw [lookupInsert] at here
  split at here
  case isTrue same =>
    cases Option.some.inj here
    exact ⟨old,same ▸ found,aged⟩
  case isFalse => exact ⟨k,here,agedRefl k⟩

theorem keptLink {op : LinkOp} {r : Except SqlError LinkAnswer} (kept : Kept s) (effect : LinkEffect sha256 s op r m) : Kept m := by
  cases effect with
  | idle => exact kept
  | @minted subject tunnelId label ttlSecs singleUse now linkId token hostname tunnel mine named few absent free =>
    have swept := keptSwept kept (lapsed now)
    refine ⟨followsInsert swept.follows (ownedRow mine).1 (ownedRow mine).2,?_⟩
    intro a b l k here there same
    dsimp only at here there
    rw [lookupInsert] at here there
    split at here
    case isTrue first =>
      cases Option.some.inj here
      split at there
      case isTrue second => exact first.trans second.symm
      case isFalse => exact absurd same.symm (free b k there)
    case isFalse =>
      split at there
      case isTrue second =>
        cases Option.some.inj there
        exact absurd same (free a l here)
      case isFalse => exact swept.unique a b l k here there same
  | revoked found => exact keptChanged kept found ⟨rfl,rfl,rfl,rfl,rfl,id,fun _ => rfl⟩ rfl
  | redeemed found =>
    split
    · exact keptChanged kept found ⟨rfl,rfl,rfl,rfl,rfl,fun _ => rfl,id⟩ rfl
    · exact kept
  | active => exact kept
  | pruned => exact keptSwept kept _

theorem keptStep (kept : Kept s) (call : Call) : Kept (step sha256 s call).2 := by
  have effect := stepEffect sha256 s call
  generalize (step sha256 s call).2 = m at effect
  generalize (step sha256 s call).1 = r at effect
  generalize call.op = op at effect
  cases effect with
  | moved moved => exact keptMoved kept moved
  | linked effect => exact keptLink kept effect

theorem activeFewer {tunnelId : String} {now : Int}
    (rows : ∀ (a : String) (l : ShareLinkRow), m.shareLinks[a]? = some l → ∃ old, s.shareLinks[a]? = some old ∧ Aged old l) :
    activeLinks tunnelId now m ≤ activeLinks tunnelId now s := by
  refine sizeLe ?_
  intro a present
  obtain ⟨l,here⟩ := Option.isSome_iff_exists.mp present
  rw [ExtTreeMap.getElem?_filter', Option.filter_eq_some_iff, Bool.and_eq_true, decide_eq_true_eq] at here
  obtain ⟨old,found,aged⟩ := rows a l here.1
  rw [ExtTreeMap.getElem?_filter', found, Option.filter_some, if_pos]
  · rfl
  · rw [Bool.and_eq_true, decide_eq_true_eq]
    exact ⟨aged.tunnelId ▸ here.2.1,agedActive aged here.2.2⟩

theorem activeLater (tunnelId : String) {now later : Int} (forward : now ≤ later) (s : Tables) :
    activeLinks tunnelId later s ≤ activeLinks tunnelId now s := by
  refine sizeLe ?_
  intro a present
  obtain ⟨l,here⟩ := Option.isSome_iff_exists.mp present
  rw [ExtTreeMap.getElem?_filter', Option.filter_eq_some_iff, Bool.and_eq_true, isActiveIff] at here
  obtain ⟨found,mine,unrevoked,live,unused⟩ := here
  rw [ExtTreeMap.getElem?_filter', found, Option.filter_some, if_pos]
  · rfl
  · rw [Bool.and_eq_true, isActiveIff]
    exact ⟨mine,unrevoked,by omega,unused⟩

theorem activeInsert (tunnelId : String) (now : Int) (s : Tables) (linkId : String) (l : ShareLinkRow) :
    activeLinks tunnelId now { s with shareLinks := s.shareLinks.insert linkId l } ≤ activeLinks tunnelId now s + 1 := by
  have larger : ((s.shareLinks.filter (fun _ l => l.tunnelId = tunnelId && isActive l now)).insert linkId l).size ≤ activeLinks tunnelId now s + 1 :=
    ExtTreeMap.size_insert_le
  refine le_trans (sizeLe ?_) larger
  intro a present
  rw [lookupInsert]
  split
  · rfl
  · rename_i other
    rw [ExtTreeMap.getElem?_filter', lookupInsert, if_neg other] at present
    rw [ExtTreeMap.getElem?_filter']
    exact present

/- No tunnel has more links at a time than the mint allows. -/
def Bounded (now : Int) (s : Tables) : Prop := ∀ tunnelId, activeLinks tunnelId now s ≤ maxActiveShareLinksPerTunnel

theorem boundedMint {subject here linkId token hostname : String} {label : Option String} {ttlSecs now' : UInt64} {singleUse : Bool}
    {now : Int} (bounded : Bounded now s) (clock : asI64 now' ≤ now)
    (few : activeLinks here (asI64 now') { s with shareLinks := (deleteWhere (lapsed now') s.shareLinks).2 } < maxActiveShareLinksPerTunnel) :
    Bounded now { s with
      shareLinks := (deleteWhere (lapsed now') s.shareLinks).2.insert linkId
        (mintedRow sha256 subject here label ttlSecs singleUse now' token hostname) } := by
  intro tunnelId
  let swept : Tables := { s with shareLinks := (deleteWhere (lapsed now') s.shareLinks).2 }
  by_cases same : tunnelId = here
  · subst same
    have one := activeInsert tunnelId now swept linkId (mintedRow sha256 subject tunnelId label ttlSecs singleUse now' token hostname)
    have later := activeLater tunnelId clock swept
    exact le_trans one (Nat.lt_of_le_of_lt later few)
  · have fewer : activeLinks tunnelId now swept ≤ activeLinks tunnelId now s := by
      refine activeFewer ?_
      intro a l found
      rw [lookupDeleted, Option.filter_eq_some_iff] at found
      exact ⟨l,found.1,agedRefl l⟩
    refine le_trans (le_trans (sizeLe ?_) fewer) (bounded tunnelId)
    intro a present
    obtain ⟨l,found⟩ := Option.isSome_iff_exists.mp present
    rw [ExtTreeMap.getElem?_filter', Option.filter_eq_some_iff, lookupInsert] at found
    obtain ⟨found,hit⟩ := found
    split at found
    case isTrue =>
      cases Option.some.inj found
      simp [mintedRow, Ne.symm same] at hit
    case isFalse =>
      rw [ExtTreeMap.getElem?_filter', found, Option.filter_some, if_pos hit]
      rfl

theorem boundedStep {call : Call} {now : Int} (bounded : Bounded now s) (clock : asI64 call.op.now ≤ now) :
    Bounded now (step sha256 s call).2 := by
  have effect := stepEffect sha256 s call
  generalize (step sha256 s call).2 = m at effect
  generalize (step sha256 s call).1 = r at effect
  generalize call.op = op at effect clock
  intro tunnelId
  cases effect with
  | moved moved => exact le_trans (activeFewer (fun a l => movedRow moved)) (bounded tunnelId)
  | @linked op r m effect =>
    by_cases mints : ∃ subject tunnelId label ttlSecs singleUse now linkId token,
      op = .mint subject tunnelId label ttlSecs singleUse now linkId token
    case neg =>
      refine le_trans (activeFewer ?_) (bounded tunnelId)
      intro a l here
      obtain old | ⟨subject,tunnelId,label,ttlSecs,singleUse,now,token,hostname,mint,_⟩ := linkRow effect here
      · exact old
      · exact absurd ⟨subject,tunnelId,label,ttlSecs,singleUse,now,a,token,mint⟩ mints
    case pos =>
      obtain ⟨subject,target,label,ttlSecs,singleUse,now',linkId,token,rfl⟩ := mints
      cases effect with
      | idle => exact bounded tunnelId
      | minted mine named few absent free => exact boundedMint bounded clock few tunnelId

end Links
section Transfers
variable {sha256 : Bytes → Hash} {s : Tables} {id : String} {row : TunnelRow} {toSubject : String}

/- The link of a tunnel under its new owner. -/
def handed (id toSubject : String) (l : ShareLinkRow) : ShareLinkRow :=
  if decide (l.tunnelId = id) then { l with subject := toSubject } else l

theorem handedSubject (id toSubject : String) (l : ShareLinkRow) : ∃ subject, handed id toSubject l = { l with subject } := by
  unfold handed
  split
  · exact ⟨toSubject,rfl⟩
  · exact ⟨l.subject,rfl⟩

theorem honoredHanded (kept : Kept s) (found : s.tunnels[id]? = some row) (toSubject hostname : String) {k : String} {l : ShareLinkRow}
    (here : s.shareLinks[k]? = some l) : honored hostname (s.transferred id row toSubject) (handed id toSubject l) = honored hostname s l := by
  obtain ⟨tunnel,there,mine⟩ := kept.follows k l here
  dsimp only at there
  unfold handed
  split
  case isTrue same =>
    have same := of_decide_eq_true same
    rw [same, found] at there
    cases Option.some.inj there
    simp [honored, Tables.transferred, same, found, mine]
  case isFalse other =>
    have other : l.tunnelId ≠ id := by simpa using other
    simp [honored, Tables.transferred, lookupInsert, other]

theorem linkHanded (id : String) (row : TunnelRow) (toSubject : String) {k : String} {l : ShareLinkRow} (here : s.shareLinks[k]? = some l) :
    (s.transferred id row toSubject).shareLinks[k]? = some (handed id toSubject l) := by
  simp [Tables.transferred, lookupUpdated, here, handed]

theorem redeemAlike (kept : Kept s) (found : s.tunnels[id]? = some row) (hostname token : String) (now : UInt64) :
    Alike (redeemShareLink sha256 hostname token now) (redeemShareLink sha256 hostname token now) (s.transferred id row toSubject) s
      (fun r _ r' _ => r = r') := by
  have blind : firstRow (fun _ l => l.tokenHash = shareLinkTokenHash sha256 token && honored hostname (s.transferred id row toSubject) l)
      (s.transferred id row toSubject).shareLinks =
      (firstRow (fun _ l => l.tokenHash = shareLinkTokenHash sha256 token && honored hostname s l) s.shareLinks).map
        (fun e => (e.1,handed id toSubject e.2)) := by
    refine firstRowUpdated (t := s.shareLinks) (p := fun _ l => l.tokenHash = shareLinkTokenHash sha256 token && honored hostname s l) ?_
    intro k l here
    obtain ⟨subject,same⟩ := handedSubject id toSubject l
    have honors := honoredHanded kept found toSubject hostname here
    show (decide ((handed id toSubject l).tokenHash = _) && honored hostname _ (handed id toSubject l)) = _
    rw [honors, same]
  unfold redeemShareLink
  refine alikeTransaction rfl (alikeSelect rfl ?_)
  rw [blind]
  cases hit : firstRow (fun _ l => l.tokenHash = shareLinkTokenHash sha256 token && honored hostname s l) s.shareLinks with
  | none => exact alikePure rfl
  | some e =>
    obtain ⟨linkId,l⟩ := e
    have here := (firstRowSome hit).1
    obtain ⟨subject,same⟩ := handedSubject id toSubject l
    have there := linkHanded id row toSubject here
    rw [same] at there
    simp only [Option.map_some, same]
    split
    case isTrue => exact alikePure rfl
    case isFalse =>
      split
      case isFalse => exact alikePure rfl
      case isTrue =>
        refine alikeExecute rfl ?_
        dsimp only
        rw [updateWhere, touchedOne, updateWhere, touchedOne, there, here, Option.isSome_filter, Option.isSome_filter]
        simp only [Option.any_some]
        split <;> exact alikePure rfl

theorem activeAlike (kept : Kept s) (found : s.tunnels[id]? = some row) (linkId hostname : String) (now : UInt64) :
    Alike (shareLinkActive linkId hostname now) (shareLinkActive linkId hostname now) (s.transferred id row toSubject) s
      (fun r _ r' _ => r = r') := by
  unfold shareLinkActive
  refine alikeSelect rfl (alikePure ?_)
  cases here : s.shareLinks[linkId]? with
  | none => simp [Tables.transferred, lookupUpdated, here]
  | some l =>
    rw [linkHanded id row toSubject here, Option.isSome_filter, Option.isSome_filter, Option.any_some, Option.any_some,
      honoredHanded kept found toSubject hostname here]
    obtain ⟨subject,same⟩ := handedSubject id toSubject l
    rw [same]

end Transfers
section Runs
variable {sha256 : Bytes → Hash} {s : Tables} {calls : List Call}

theorem runStep (before : List Call) (call : Call) : run sha256 (before ++ [call]) = (step sha256 (run sha256 before) call).2 :=
  Machine.runNext _ _ _

theorem runKept (sha256 : Bytes → Hash) (calls : List Call) : Kept (run sha256 calls) := by
  refine Machine.runInvariant Kept (fun s call kept => keptStep kept call) ⟨?_,?_⟩ calls
  · intro k l here
    simp at here
  · intro a b l k here
    simp at here

theorem runBounded {now : Int} (clock : ∀ call ∈ calls, asI64 call.op.now ≤ now) : Bounded now (run sha256 calls) := by
  refine Machine.runHistory (fun calls s => (∀ call ∈ calls, asI64 call.op.now ≤ now) → Bounded now s) ?_ ?_ calls clock
  · intro _ tunnelId
    exact Nat.zero_le _
  · intro earlier m call ih clock
    exact boundedStep (ih (fun other mem => clock other (List.mem_append_left _ mem))) (clock call (by simp))

/- A row at the end of a run was there at its start, or its link was minted on the way. -/
theorem runRow (window : List Call) {linkId : String} {l : ShareLinkRow} (here : (Machine.run (step sha256) s window).shareLinks[linkId]? = some l) :
    (∃ old, s.shareLinks[linkId]? = some old ∧ Aged old l) ∨ ∃ earlier mint later, window = earlier ++ mint :: later ∧
      ∃ expiry, Mints sha256 (Machine.run (step sha256) s earlier) mint linkId l.tokenHash expiry ∧ l.expiresAt = asI64 expiry := by
  induction window using List.reverseRecOn generalizing l with
  | nil => exact .inl ⟨l,here,agedRefl l⟩
  | append_singleton window call ih =>
    rw [Machine.runNext] at here
    obtain ⟨old,found,aged⟩ | ⟨expiry,mints,expires⟩ := stepRow here
    · obtain ⟨first,there,earlier⟩ | ⟨earlier,mint,later,parts,expiry,mints,expires⟩ := ih found
      · exact .inl ⟨first,there,agedTrans earlier aged⟩
      · refine .inr ⟨earlier,mint,later ++ [call],by rw [parts]; simp,expiry,?_,aged.expiresAt.trans expires⟩
        rwa [aged.tokenHash]
    · exact .inr ⟨window,call,[],rfl,expiry,mints,expires⟩

/- What all links of some kind have become stays so, until a link of the kind is minted. -/
theorem runDead (sha256 : Bytes → Hash) (s : Tables) (kind : String → String → Prop) {dead : ShareLinkRow → Prop}
    (stays : ∀ old new, Aged old new → dead old → dead new)
    (start : ∀ (k : String) (l : ShareLinkRow), s.shareLinks[k]? = some l → kind k l.tokenHash → dead l) (window : List Call) :
    (∀ (k : String) (l : ShareLinkRow), (Machine.run (step sha256) s window).shareLinks[k]? = some l → kind k l.tokenHash → dead l) ∨
      ∃ earlier mint later, window = earlier ++ mint :: later ∧
        ∃ linkId tokenHash expiry, Mints sha256 (Machine.run (step sha256) s earlier) mint linkId tokenHash expiry ∧ kind linkId tokenHash := by
  refine Classical.or_iff_not_imp_right.mpr ?_
  intro unminted k l here picked
  obtain ⟨old,found,aged⟩ | ⟨earlier,mint,later,parts,expiry,mints,_⟩ := runRow window here
  · exact stays old l aged (start k old found (aged.tokenHash ▸ picked))
  · exact absurd ⟨earlier,mint,later,parts,k,l.tokenHash,expiry,mints,picked⟩ unminted

/- A token that was minted again after some calls. -/
def Again (sha256 : Bytes → Hash) (before between : List Call) (kind : String → String → Prop) : Prop :=
  ∃ earlier mint later, between = earlier ++ mint :: later ∧
    ∃ linkId tokenHash expiry, Mints sha256 (run sha256 (before ++ earlier)) mint linkId tokenHash expiry ∧ kind linkId tokenHash

/- From here on the link opens nothing, unless the generator gives its token or its id once more. -/
def Cut (sha256 : Bytes → Hash) (calls before : List Call) (linkId tokenHash : String) : Prop :=
  ∀ between call after, calls = before ++ (between ++ call :: after) →
    (∀ link, Redeems sha256 (run sha256 (before ++ between)) call tokenHash link → Again sha256 before between (fun _ hash => hash = tokenHash)) ∧
      (Active sha256 (run sha256 (before ++ between)) call linkId → Again sha256 before between (fun id _ => id = linkId))

/- What the share links of a store are good for, in any run. -/
structure Sound (sha256 : Bytes → Hash) (calls : List Call) : Prop where
  once : ∀ before first between second after tokenHash link again, calls = before ++ first :: (between ++ second :: after) →
    Redeems sha256 (run sha256 before) first tokenHash link → link.singleUse = true →
    Redeems sha256 (run sha256 (before ++ first :: between)) second tokenHash again →
    Again sha256 (before ++ [first]) between (fun _ hash => hash = tokenHash)
  revoked : ∀ before call after subject tunnelId linkId now, calls = before ++ call :: after →
    call.op = .link (.revoke subject tunnelId linkId now) → (step sha256 (run sha256 before) call).1 = .ok (.link (.revoked true)) →
    ∃ l, (run sha256 before).shareLinks[linkId]? = some l ∧ Cut sha256 calls (before ++ [call]) linkId l.tokenHash
  expired : ∀ before call after, calls = before ++ call :: after → call.op.now.toNat < 2 ^ 63 →
    (∀ tokenHash link, Redeems sha256 (run sha256 before) call tokenHash link → call.op.now < link.expiresAt ∧
      ∃ earlier mint later, before = earlier ++ mint :: later ∧ Mints sha256 (run sha256 earlier) mint link.linkId tokenHash link.expiresAt) ∧
    (∀ linkId, Active sha256 (run sha256 before) call linkId → ∃ expiresAt tokenHash, call.op.now < expiresAt ∧
      ∃ earlier mint later, before = earlier ++ mint :: later ∧ Mints sha256 (run sha256 earlier) mint linkId tokenHash expiresAt)
  tunnelRevoked : ∀ before call after subject id now token, calls = before ++ call :: after →
    call.op = .lifecycle (.revoke subject id now) → (step sha256 (run sha256 before) call).1 = .ok (.lifecycle (.revoked (some token))) →
    ∀ (linkId : String) (l : ShareLinkRow), (run sha256 before).shareLinks[linkId]? = some l → l.tunnelId = id →
      Cut sha256 calls (before ++ [call]) linkId l.tokenHash
  transferred : ∀ before call after tunnelId fromSubject toSubject targetExists, calls = before ++ call :: after →
    call.op = .lifecycle (.transferTunnel tunnelId fromSubject toSubject targetExists) →
    (∀ hostname token now faults, (step sha256 (run sha256 (before ++ [call])) ⟨.link (.redeem hostname token now),faults⟩).1 =
      (step sha256 (run sha256 before) ⟨.link (.redeem hostname token now),faults⟩).1) ∧
    (∀ linkId hostname now faults, (step sha256 (run sha256 (before ++ [call])) ⟨.link (.active linkId hostname now),faults⟩).1 =
      (step sha256 (run sha256 before) ⟨.link (.active linkId hostname now),faults⟩).1)
  bounded : ∀ before after now, calls = before ++ after → now.toNat < 2 ^ 63 → (∀ call ∈ before, call.op.now ≤ now) →
    ∀ tunnelId, activeLinks tunnelId (asI64 now) (run sha256 before) ≤ maxActiveShareLinksPerTunnel

theorem expiresExact {now expiry : UInt64} (small : now.toNat < 2 ^ 63) (live : asI64 now < asI64 expiry) : now < expiry := by
  have bound := expiry.toNat_lt
  rw [asI64Small small] at live
  rw [UInt64.lt_iff_toNat_lt]
  by_cases fits : expiry.toNat < 2 ^ 63
  · rw [asI64Small fits] at live
    omega
  · omega

theorem asU64Back (v : UInt64) : asU64 (asI64 v) = v := by
  have bound := v.toNat_lt
  refine UInt64.toNat_inj.mp ?_
  rw [asU64, UInt64.toNat_ofNat', asI64]
  split <;> omega

theorem clockSmall {before now : UInt64} (small : now.toNat < 2 ^ 63) (le : before ≤ now) : asI64 before ≤ asI64 now := by
  rw [UInt64.le_iff_toNat_le] at le
  rw [asI64Small small, asI64Small (by omega)]
  exact_mod_cast le

/- What came before a call and what comes after it. -/
theorem cutFrom {before : List Call} {linkId tokenHash : String} (dead : ∀ (k : String) (l : ShareLinkRow),
    (run sha256 before).shareLinks[k]? = some l → l.tokenHash = tokenHash ∨ k = linkId → l.revokedAt.isSome) :
    Cut sha256 calls before linkId tokenHash := by
  intro between call after split
  have window : ∀ later, run sha256 (before ++ later) = Machine.run (step sha256) (run sha256 before) later := fun later => Machine.runAppend _ _ _
  have stays : ∀ old new, Aged old new → old.revokedAt.isSome = true → new.revokedAt.isSome = true := fun _ _ aged => aged.revoked
  unfold Again
  simp only [window]
  constructor
  · intro link redeems
    obtain ⟨l,found,same,live,_⟩ := redeemsRow redeems
    obtain all | again := runDead sha256 (run sha256 before) (fun _ hash => hash = tokenHash) stays
      (fun k l here picked => dead k l here (.inl picked)) between
    · have revoked := all _ l found same
      rw [(isActiveIff.mp live).1] at revoked
      contradiction
    · exact again
  · intro active
    obtain ⟨l,found,unrevoked,_⟩ := activeRow active
    obtain all | again := runDead sha256 (run sha256 before) (fun id _ => id = linkId) stays
      (fun k l here picked => dead k l here (.inr picked)) between
    · have revoked := all _ l found rfl
      rw [unrevoked] at revoked
      contradiction
    · exact again

/- The tokens of a single use that were used. -/
theorem onceRun {before between : List Call} {first second : Call} {tokenHash : String} {link again : RedeemedLink}
    (redeems : Redeems sha256 (run sha256 before) first tokenHash link) (single : link.singleUse = true)
    (repeated : Redeems sha256 (run sha256 (before ++ first :: between)) second tokenHash again) :
    Again sha256 (before ++ [first]) between (fun _ hash => hash = tokenHash) := by
  have window : ∀ later, run sha256 (before ++ [first] ++ later) = Machine.run (step sha256) (run sha256 (before ++ [first])) later :=
    fun later => Machine.runAppend _ _ _
  obtain ⟨l,found,same,live,shape,written⟩ := redeemsRow redeems
  have one : l.singleUse = true := by rw [shape] at single; exact single
  rw [if_pos one] at written
  have spent : ∀ (k : String) (row : ShareLinkRow), (run sha256 (before ++ [first])).shareLinks[k]? = some row → row.tokenHash = tokenHash →
      row.singleUse = true ∧ row.usedAt.isSome := by
    intro k row here token
    have kept := runKept sha256 (before ++ [first])
    have there : (run sha256 (before ++ [first])).shareLinks[link.linkId]? = some { l with usedAt := some (asI64 first.op.now) } := by
      rw [runStep]
      exact written ▸ by rw [lookupInsert, if_pos rfl]
    have name := kept.unique k link.linkId row _ here there (token.trans same.symm)
    rw [name, there] at here
    cases Option.some.inj here
    exact ⟨one,rfl⟩
  have stays : ∀ old new, Aged old new → (old.singleUse = true ∧ old.usedAt.isSome = true) → new.singleUse = true ∧ new.usedAt.isSome = true :=
    fun _ _ aged dead => ⟨aged.singleUse.trans dead.1,aged.used dead.2⟩
  unfold Again
  simp only [window]
  obtain all | minted := runDead sha256 (run sha256 (before ++ [first])) (fun _ hash => hash = tokenHash) stays spent between
  · obtain ⟨l',found',same',live',_⟩ := redeemsRow repeated
    rw [← window] at all
    rw [List.append_cons] at found'
    obtain ⟨single',used⟩ := all _ l' found' same'
    rw [(isActiveIff.mp live').2.2 single'] at used
    contradiction
  · exact minted

theorem revokedLink {call : Call} {subject tunnelId linkId : String} {now : UInt64} (asks : call.op = .link (.revoke subject tunnelId linkId now))
    (ok : (step sha256 s call).1 = .ok (.link (.revoked true))) : ∃ l, s.shareLinks[linkId]? = some l ∧
      (step sha256 s call).2.shareLinks[linkId]? = some { l with revokedAt := some (asI64 now) } := by
  have effect := linkEffect asks ok
  generalize (step sha256 s call).2 = m at effect
  cases effect with
  | idle negative => exact absurd (negative _ rfl) (by simp [LinkAnswer.positive])
  | revoked found => exact ⟨_,found,by rw [lookupInsert, if_pos rfl]⟩

theorem revokedTunnel {call : Call} {subject id token : String} {now : UInt64} (asks : call.op = .lifecycle (.revoke subject id now))
    (ok : (step sha256 s call).1 = .ok (.lifecycle (.revoked (some token)))) :
    ∃ row, owned id subject s = some row ∧ (step sha256 s call).2 = s.revoked id row now := by
  obtain ⟨op,faults⟩ := call
  cases asks
  have ends : Ends ((Lifecycle.revoke subject id now).work >>= fun answer => pure (Answer.lifecycle answer)) s (fun r m =>
      r = .ok (.lifecycle (.revoked (some token))) → ∃ row, owned id subject s = some row ∧ m = s.revoked id row now) := by
    refine endsGives (endsGives (endsMono (revokeAnswers subject id now) ?_))
    rintro (e | answer) m answered same
    · contradiction
    · cases same
      obtain ⟨row,mine,_,rfl⟩ := answered
      exact ⟨row,mine,rfl⟩
  exact ends faults ok

theorem transferredTables (sha256 : Bytes → Hash) (s : Tables) {call : Call} {tunnelId fromSubject toSubject : String}
    {targetExists : Except SqlError Bool}
    (asks : call.op = .lifecycle (.transferTunnel tunnelId fromSubject toSubject targetExists)) :
    (step sha256 s call).2 = s ∨ ∃ row, s.tunnels[tunnelId]? = some row ∧ (step sha256 s call).2 = s.transferred tunnelId row toSubject := by
  obtain ⟨op,faults⟩ := call
  cases asks
  have ends : Ends ((Lifecycle.transferTunnel tunnelId fromSubject toSubject targetExists).work >>= fun answer => pure (Answer.lifecycle answer)) s
      (fun _ m => m = s ∨ ∃ row, s.tunnels[tunnelId]? = some row ∧ m = s.transferred tunnelId row toSubject) := by
    refine endsGives (endsGives (endsMono (transferAnswers tunnelId fromSubject toSubject targetExists) ?_))
    intro r m answered
    split at answered
    · obtain ⟨row,mine,rfl⟩ := answered
      exact .inr ⟨row,(ownedRow mine).1,rfl⟩
    · exact .inl answered
  exact ends faults

theorem shareLinksSound (sha256 : Bytes → Hash) (calls : List Call) : Sound sha256 calls where
  once := by
    intro before first between second after tokenHash link again split redeems single repeated
    exact onceRun redeems single repeated
  revoked := by
    intro before call after subject tunnelId linkId now split asks ok
    obtain ⟨l,found,written⟩ := revokedLink asks ok
    refine ⟨l,found,cutFrom ?_⟩
    intro k row here picked
    have kept := runKept sha256 (before ++ [call])
    rw [runStep] at here kept
    have name : k = linkId := by
      obtain token | name := picked
      · exact kept.unique k linkId row _ here written token
      · exact name
    rw [name, written] at here
    cases Option.some.inj here
    rfl
  expired := by
    intro before call after split small
    constructor
    · intro tokenHash link redeems
      obtain ⟨l,found,same,live,shape,_⟩ := redeemsRow redeems
      obtain ⟨old,here,_⟩ | ⟨earlier,mint,later,parts,expiry,mints,expires⟩ := runRow before found
      · simp at here
      · have exact' : link.expiresAt = expiry := by
          rw [shape]
          show asU64 l.expiresAt = expiry
          rw [expires, asU64Back]
        rw [exact']
        have unexpired := (isActiveIff.mp live).2.1
        rw [expires] at unexpired
        exact ⟨expiresExact small unexpired,earlier,mint,later,parts,same ▸ mints⟩
    · intro linkId active
      obtain ⟨l,found,_,live⟩ := activeRow active
      obtain ⟨old,here,_⟩ | ⟨earlier,mint,later,parts,expiry,mints,expires⟩ := runRow before found
      · simp at here
      · rw [expires] at live
        exact ⟨expiry,l.tokenHash,expiresExact small live,earlier,mint,later,parts,mints⟩
  tunnelRevoked := by
    intro before call after subject id now token split asks ok linkId l found mine
    obtain ⟨row,_,gone⟩ := revokedTunnel asks ok
    refine cutFrom ?_
    intro k other here picked
    rw [runStep, gone] at here
    simp only [Tables.revoked, lookupDeleted, Option.filter_eq_some_iff] at here
    have name : k = linkId := by
      obtain same | name := picked
      · exact (runKept sha256 before).unique k linkId other l here.1 found same
      · exact name
    rw [name, found] at here
    cases Option.some.inj here.1
    simp [mine] at here
  transferred := by
    intro before call after tunnelId fromSubject toSubject targetExists split asks
    rw [runStep]
    obtain same | ⟨row,found,same⟩ := transferredTables sha256 (run sha256 before) asks
    · exact ⟨fun _ _ _ _ => by rw [same],fun _ _ _ _ => by rw [same]⟩
    · rw [same]
      have kept := runKept sha256 before
      exact ⟨fun hostname token now => alikeAnswers (alikeGives (alikeGives (redeemAlike kept found hostname token now))),
        fun linkId hostname now => alikeAnswers (alikeGives (alikeGives (activeAlike kept found linkId hostname now)))⟩
  bounded := by
    intro before after now split small clock tunnelId
    exact runBounded (fun call mem => clockSmall small (clock call mem)) tunnelId

end Runs
end CadsTunnel.ShareLinks
