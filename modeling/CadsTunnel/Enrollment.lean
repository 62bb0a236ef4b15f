import CadsTunnel.Machine
import CadsTunnel.Sql
import CadsTunnel.Words

/-! The enrollment store: join tokens, the agents bound with them and the records that make a
retried batch replay. A redeemed token stays spent, also once its row is pruned, and a failed
redemption changes nothing unless it is the expired token that it uses up. -/
namespace CadsTunnel.Enrollment
open OrderedMap Words Sql
open Std (ExtTreeMap)

abbrev JoinToken := Vector UInt8 32
abbrev AgentPublicKey := Vector UInt8 32
abbrev Proof := Vector UInt8 64

structure TokenRow where
  tenant : String
  redeemed : Int := 0
  expiresAt : Int := 0
  deriving DecidableEq

structure BindingRow where
  tenant : String
  pubkey : AgentPublicKey
  deriving DecidableEq

structure BatchRow where
  tenant : String
  tokens : Bytes
  createdAt : Int := 0

structure Tables where
  joinTokens : BTreeMap JoinToken TokenRow := ∅
  agentBindings : BTreeMap String BindingRow := ∅
  batchIssuance : BTreeMap String BatchRow := ∅

inductive EnrollError where
  | unknownToken
  | tokenAlreadyUsed
  | badProof
  | expired
  deriving DecidableEq

inductive RedeemError where
  | enroll (e : EnrollError)
  | storage (e : SqlError)
  deriving DecidableEq

inductive IssueBatchError where
  | conflict
  | db (e : SqlError)
  deriving DecidableEq

instance : FromSql RedeemError := ⟨.storage⟩
instance : FromSql IssueBatchError := ⟨.db⟩

abbrev Work (Error α : Type) := Session Tables Error α

def joinTokenTtlSecs : UInt64 := 7 * 24 * 3600

def expiry (now : UInt64) : Int := asI64 (saturatingAdd now joinTokenTtlSecs)

def insertToken {Error : Type} [FromSql Error] (token : JoinToken) (tenant : String) (expiresAt : Int) : Work Error Unit :=
  statement (fun s => (insertRow token ⟨tenant,0,expiresAt⟩ s.joinTokens).map (fun rows => ((),{ s with joinTokens := rows })))

/- What the random generator fills in is an argument. -/
def issueJoinToken (tenant : String) (now : UInt64) (bytes : JoinToken) : Work SqlError JoinToken := do
  insertToken bytes tenant (expiry now)
  pure bytes

def issueJoinTokens (tenant : String) (count : Nat) (now : UInt64) (fill : Nat → JoinToken) : Work SqlError (List JoinToken) :=
  transaction (do
    let tokens ← (List.range count).foldlM (fun tokens i => do
      insertToken (fill i) tenant (expiry now)
      pure (tokens ++ [fill i])) []
    pure (.commit tokens))

/- `chunks_exact(32)`. -/
def chunksExact (blob : Bytes) : List JoinToken :=
  if h : 32 ≤ blob.length then ⟨(blob.take 32).toArray,by simp [h]⟩ :: chunksExact (blob.drop 32) else []
termination_by blob.length

def issueJoinTokensIdempotent (tenant : String) (count : Nat) (idempotencyKey : String) (now : UInt64) (fill : Nat → JoinToken) :
    Work IssueBatchError (List JoinToken) :=
  transaction (do
    let existing ← select (fun s => s.batchIssuance[idempotencyKey]?)
    match existing with
    | some row =>
      if row.tenant ≠ tenant ∨ row.tokens.length ≠ count * 32 then throw .conflict
      else pure (.rollback (chunksExact row.tokens))
    | none =>
      let (tokens,blob) ← (List.range count).foldlM (fun acc i => do
        insertToken (fill i) tenant (expiry now)
        pure (acc.1 ++ [fill i],acc.2 ++ (fill i).toList)) (([],[]) : List JoinToken × Bytes)
      statement (fun s => (insertRow idempotencyKey ⟨tenant,blob,asI64 now⟩ s.batchIssuance).map
        (fun rows => ((),{ s with batchIssuance := rows })))
      pure (.commit tokens))

def consumed (token : JoinToken) (rows : BTreeMap JoinToken TokenRow) : BTreeMap JoinToken TokenRow :=
  (updateWhere (fun k _ => k = token) (fun row => { row with redeemed := 1 }) rows).2

/- An expired token is used up as well: its transaction commits before the refusal. -/
def redeem (token : JoinToken) (agent : String) (pubkey : AgentPublicKey) (now : UInt64) : Work RedeemError String := do
  let outcome : Except EnrollError String ← transaction (do
    let row ← select (fun s => s.joinTokens[token]?)
    match row with
    | none => throw (.enroll .unknownToken)
    | some row =>
      if row.redeemed ≠ 0 then throw (.enroll .tokenAlreadyUsed)
      else
        execute (fun s => ((),{ s with joinTokens := consumed token s.joinTokens }))
        if row.expiresAt ≠ 0 ∧ asI64 now > row.expiresAt then pure (.commit (.error .expired))
        else
          execute (fun s => ((),{ s with agentBindings := s.agentBindings.insert agent ⟨row.tenant,pubkey⟩ }))
          pure (.commit (.ok row.tenant)))
  match outcome with
  | .ok tenant => pure tenant
  | .error e => throw (.enroll e)

/- Ed25519 stands behind `verifyJoinProof`. -/
def redeemWithProof (verifyJoinProof : JoinToken → AgentPublicKey → Proof → Bool) (token : JoinToken) (agent : String)
    (pubkey : AgentPublicKey) (proof : Proof) (now : UInt64) : Work RedeemError String :=
  if !verifyJoinProof token pubkey proof then throw (.enroll .badProof) else redeem token agent pubkey now

def pruneRedeemedJoinTokens (now : UInt64) : Work SqlError Nat :=
  execute (fun s =>
    let (n,rows) := deleteWhere (fun _ row => row.redeemed ≠ 0 ∨ row.expiresAt ≠ 0 ∧ row.expiresAt < asI64 now) s.joinTokens
    (n,{ s with joinTokens := rows }))

def pruneBatchIssuance (now maxAgeSecs : UInt64) : Work SqlError Nat :=
  execute (fun s =>
    let (n,rows) := deleteWhere (fun _ row => row.createdAt ≠ 0 ∧ row.createdAt < asI64 (saturatingSub now maxAgeSecs)) s.batchIssuance
    (n,{ s with batchIssuance := rows }))

inductive Op where
  | issueJoinToken (tenant : String) (now : UInt64) (bytes : JoinToken)
  | issueJoinTokens (tenant : String) (count : Nat) (now : UInt64) (fill : Nat → JoinToken)
  | issueJoinTokensIdempotent (tenant : String) (count : Nat) (idempotencyKey : String) (now : UInt64) (fill : Nat → JoinToken)
  | redeem (token : JoinToken) (agent : String) (pubkey : AgentPublicKey) (now : UInt64)
  | redeemWithProof (token : JoinToken) (agent : String) (pubkey : AgentPublicKey) (proof : Proof) (now : UInt64)
  | pruneRedeemedJoinTokens (now : UInt64)
  | pruneBatchIssuance (now maxAgeSecs : UInt64)

def Op.now : Op → UInt64
  | .issueJoinToken _ now _ | .issueJoinTokens _ _ now _ | .issueJoinTokensIdempotent _ _ _ now _ => now
  | .redeem _ _ _ now | .redeemWithProof _ _ _ _ now => now
  | .pruneRedeemedJoinTokens now | .pruneBatchIssuance now _ => now

/- The token, agent and key of a redemption. -/
def Op.redeems : Op → Option (JoinToken × String × AgentPublicKey)
  | .redeem token agent pubkey _ | .redeemWithProof token agent pubkey _ _ => some (token,agent,pubkey)
  | _ => none

inductive Answer where
  | token (result : Except SqlError JoinToken)
  | tokens (result : Except SqlError (List JoinToken))
  | batch (result : Except IssueBatchError (List JoinToken))
  | redeemed (result : Except RedeemError String)
  | removed (result : Except SqlError Nat)
  deriving DecidableEq

structure Call where
  op : Op
  faults : List Bool := []

def settle {Error α : Type} (answer : Except Error α → Answer) (x : Work Error α) (s : Tables) (faults : List Bool) : Answer × Tables :=
  let (result,next) := perform x s faults
  (answer result,next)

section Machine
variable (verifyJoinProof : JoinToken → AgentPublicKey → Proof → Bool)

def step (s : Tables) (call : Call) : Answer × Tables :=
  match call.op with
  | .issueJoinToken tenant now bytes => settle .token (issueJoinToken tenant now bytes) s call.faults
  | .issueJoinTokens tenant count now fill => settle .tokens (issueJoinTokens tenant count now fill) s call.faults
  | .issueJoinTokensIdempotent tenant count idempotencyKey now fill =>
    settle .batch (issueJoinTokensIdempotent tenant count idempotencyKey now fill) s call.faults
  | .redeem token agent pubkey now => settle .redeemed (redeem token agent pubkey now) s call.faults
  | .redeemWithProof token agent pubkey proof now =>
    settle .redeemed (redeemWithProof verifyJoinProof token agent pubkey proof now) s call.faults
  | .pruneRedeemedJoinTokens now => settle .removed (pruneRedeemedJoinTokens now) s call.faults
  | .pruneBatchIssuance now maxAgeSecs => settle .removed (pruneBatchIssuance now maxAgeSecs) s call.faults

def run (start : Tables) (calls : List Call) : Tables := Machine.run (step verifyJoinProof) start calls

end Machine

def Answer.isBound : Answer → Prop
  | .redeemed (.ok _) | .redeemed (.error (.enroll .expired)) => True
  | _ => False

def Answer.isRedeemed : Answer → Prop
  | .redeemed _ => True
  | _ => False

/- What a call may do to the tables. -/
inductive Effect (s : Tables) (op : Op) : Answer → Tables → Prop where
  | idle {answer : Answer} (calm : ¬answer.isBound) : Effect s op answer s
  | minted {answer : Answer} {tenant : String} (tokens : List JoinToken) (other : ¬answer.isRedeemed) (fresh : ∀ t ∈ tokens, t ∉ s.joinTokens) :
      Effect s op answer { s with joinTokens := insertAll tokens (fun _ => ⟨tenant,0,expiry op.now⟩) s.joinTokens }
  | recorded {answer : Answer} {tenant key : String} (tokens : List JoinToken) (blob : Bytes) (other : ¬answer.isRedeemed)
      (fresh : ∀ t ∈ tokens, t ∉ s.joinTokens) (absent : s.batchIssuance[key]? = none) :
      Effect s op answer
        { s with
          joinTokens := insertAll tokens (fun _ => ⟨tenant,0,expiry op.now⟩) s.joinTokens
          batchIssuance := s.batchIssuance.insert key ⟨tenant,blob,asI64 op.now⟩ }
  | bound {token : JoinToken} {agent : String} {pubkey : AgentPublicKey} {row : TokenRow} (redeems : op.redeems = some (token,agent,pubkey))
      (found : s.joinTokens[token]? = some row) (unused : row.redeemed = 0) (live : row.expiresAt = 0 ∨ asI64 op.now ≤ row.expiresAt) :
      Effect s op (.redeemed (.ok row.tenant))
        { s with
          joinTokens := consumed token s.joinTokens
          agentBindings := s.agentBindings.insert agent ⟨row.tenant,pubkey⟩ }
  | lapsed {token : JoinToken} {agent : String} {pubkey : AgentPublicKey} {row : TokenRow} (redeems : op.redeems = some (token,agent,pubkey))
      (found : s.joinTokens[token]? = some row) (unused : row.redeemed = 0) (late : row.expiresAt ≠ 0 ∧ row.expiresAt < asI64 op.now) :
      Effect s op (.redeemed (.error (.enroll .expired))) { s with joinTokens := consumed token s.joinTokens }
  | swept {answer : Answer} (other : ¬answer.isRedeemed) (drop : JoinToken → TokenRow → Bool) :
      Effect s op answer { s with joinTokens := (deleteWhere drop s.joinTokens).2 }
  | forgotten {answer : Answer} {now maxAgeSecs : UInt64} (other : ¬answer.isRedeemed) (prunes : op = .pruneBatchIssuance now maxAgeSecs) :
      Effect s op answer
        { s with
          batchIssuance := (deleteWhere (fun _ (row : BatchRow) => row.createdAt ≠ 0 ∧
            row.createdAt < asI64 (saturatingSub now maxAgeSecs)) s.batchIssuance).2 }

section Calls
variable {s : Tables} {op : Op} {token : JoinToken} {agent : String} {pubkey : AgentPublicKey}

theorem insertTokenEnds {Error β : Type} [FromSql Error] {token : JoinToken} {tenant : String} {expiresAt : Int} {next : Unit → Work Error β}
    {post : Except Error β → Tables → Prop} (fails : ∀ e, post (.error (FromSql.db e)) s)
    (goes : s.joinTokens[token]? = none →
      Ends (next ()) { s with joinTokens := s.joinTokens.insert token ⟨tenant,0,expiresAt⟩ } post) :
    Ends (insertToken token tenant expiresAt >>= next) s post := endsInsert fails goes

theorem insertAllNext (tokens : List JoinToken) (f : JoinToken → TokenRow) (t : JoinToken) (rows : BTreeMap JoinToken TokenRow) :
    insertAll (tokens ++ [t]) f rows = (insertAll tokens f rows).insert t (f t) := by
  simp [insertAll, List.foldl_append]

theorem absentAll {tokens : List JoinToken} {f : JoinToken → TokenRow} {t : JoinToken} {rows : BTreeMap JoinToken TokenRow}
    (absent : (insertAll tokens f rows)[t]? = none) : t ∉ rows := by
  rw [lookupInsertAll] at absent
  split at absent <;> try contradiction
  rw [ExtTreeMap.mem_iff_isSome_getElem?, absent]
  nofun

theorem issueJoinTokenEnds (tenant : String) (now : UInt64) (bytes : JoinToken) :
    Ends (issueJoinToken tenant now bytes) s (fun r m => Effect s (.issueJoinToken tenant now bytes) (.token r) m) := by
  refine insertTokenEnds (fun _ => .idle nofun) (fun absent => endsPure ?_)
  refine .minted [bytes] nofun ?_
  intro t mem
  rw [List.mem_singleton.mp mem, ExtTreeMap.mem_iff_isSome_getElem?, absent]
  nofun

theorem issueJoinTokensEnds (tenant : String) (count : Nat) (now : UInt64) (fill : Nat → JoinToken) :
    Ends (issueJoinTokens tenant count now fill) s (fun r m => Effect s (.issueJoinTokens tenant count now fill) (.tokens r) m) := by
  refine endsTransaction (.idle nofun) ?_
  refine endsBind (fun tokens m => (∀ t ∈ tokens, t ∉ s.joinTokens) ∧
    m = { s with joinTokens := insertAll tokens (fun _ => ⟨tenant,0,expiry now⟩) s.joinTokens }) ?_ ?_
  · refine endsLoop (fun _ tokens m => (∀ t ∈ tokens, t ∉ s.joinTokens) ∧
      m = { s with joinTokens := insertAll tokens (fun _ => ⟨tenant,0,expiry now⟩) s.joinTokens }) ⟨nofun,rfl⟩ ?_ (fun _ _ held => held)
    rintro before i after tokens m split ⟨fresh,rfl⟩
    refine insertTokenEnds (fun _ => .idle nofun) (fun absent => endsPure ⟨?_,?_⟩)
    · exact List.forall_mem_append.mpr ⟨fresh,by simpa using absentAll absent⟩
    · rw [insertAllNext]
  · rintro tokens m ⟨fresh,rfl⟩
    exact endsPure (.minted tokens nofun fresh)

theorem chunksAppend (t : JoinToken) (blob : Bytes) : chunksExact (t.toList ++ blob) = t :: chunksExact blob := by
  have size : t.toList.length = 32 := Vector.length_toList
  rw [chunksExact, dif_pos (by rw [List.length_append, size]; omega)]
  refine List.cons_eq_cons.mpr ⟨?_,?_⟩
  · apply Vector.toList_inj.mp
    simp [List.take_left' size]
  · rw [List.drop_left' size]

theorem chunksTokens (tokens : List JoinToken) : chunksExact (tokens.flatMap Vector.toList) = tokens := by
  induction tokens with
  | nil => rw [List.flatMap_nil, chunksExact, dif_neg (by simp)]
  | cons t rest ih => rw [List.flatMap_cons, chunksAppend, ih]

/- What a batch with a key answers if nothing fails, by the record of the key. -/
def replayed (row : BatchRow) (tenant : String) (count : Nat) : Except IssueBatchError (List JoinToken) :=
  if row.tenant ≠ tenant ∨ row.tokens.length ≠ count * 32 then .error .conflict else .ok (chunksExact row.tokens)

/- A batch that minted leaves the record that replays it. -/
def Remembers (tenant : String) (count : Nat) (key : String) : Except IssueBatchError (List JoinToken) → Tables → Prop
  | .ok tokens, m => ∃ row, m.batchIssuance[key]? = some row ∧ row.tenant = tenant ∧ row.tokens.length = count * 32 ∧ chunksExact row.tokens = tokens
  | .error _, _ => True

theorem issueIdempotentEnds (tenant : String) (count : Nat) (key : String) (now : UInt64) (fill : Nat → JoinToken) :
    Ends (issueJoinTokensIdempotent tenant count key now fill) s (fun r m =>
      Effect s (.issueJoinTokensIdempotent tenant count key now fill) (.batch r) m ∧ Remembers tenant count key r m ∧
        ∀ row, s.batchIssuance[key]? = some row → m = s ∧ (r = replayed row tenant count ∨ r = .error (.db .failure))) := by
  refine endsTransaction ⟨.idle nofun,trivial,fun _ _ => ⟨rfl,.inr rfl⟩⟩ ?_
  refine endsSelect ⟨.idle nofun,trivial,fun _ _ => ⟨rfl,.inr rfl⟩⟩ ?_
  cases found : s.batchIssuance[key]? with
  | some row =>
    dsimp only
    split
    case isTrue other =>
      refine endsThrow ⟨.idle nofun,trivial,?_⟩
      rintro row' ⟨⟩
      exact ⟨rfl,.inl (by rw [replayed, if_pos other])⟩
    case isFalse same =>
      have agreed := same
      rw [not_or, not_not, not_not] at agreed
      refine endsPure ⟨.idle nofun,⟨row,found,agreed.1,agreed.2,rfl⟩,?_⟩
      rintro row' ⟨⟩
      exact ⟨rfl,.inl (by rw [replayed, if_neg same])⟩
  | none =>
    dsimp only
    let Minted (before : List Nat) (acc : List JoinToken × Bytes) (m : Tables) : Prop := (∀ t ∈ acc.1, t ∉ s.joinTokens) ∧
      acc.1.length = before.length ∧ acc.2 = acc.1.flatMap Vector.toList ∧
      m = { s with joinTokens := insertAll acc.1 (fun _ => ⟨tenant,0,expiry now⟩) s.joinTokens }
    refine endsBind (Minted (List.range count)) ?_ ?_
    · refine endsLoop Minted ⟨nofun,rfl,rfl,rfl⟩ ?_ (fun _ _ held => held)
      rintro before i after acc m split ⟨fresh,number,blob,rfl⟩
      refine insertTokenEnds (fun _ => ⟨.idle nofun,trivial,nofun⟩) (fun absent => endsPure ⟨?_,?_,?_,?_⟩)
      · exact List.forall_mem_append.mpr ⟨fresh,by simpa using absentAll absent⟩
      · simp [number]
      · simp [blob]
      · rw [insertAllNext]
    · rintro ⟨tokens,blob⟩ m ⟨fresh,number,same,rfl⟩
      dsimp only at fresh number same ⊢
      subst same
      have size : (tokens.flatMap Vector.toList).length = count * 32 := by
        rw [List.length_flatMap]
        simp only [Vector.length_toList, List.map_const', List.sum_replicate_nat]
        rw [number, List.length_range]
      refine endsInsert (fun _ => ⟨.idle nofun,trivial,nofun⟩) (fun _ => endsPure ⟨.recorded tokens _ nofun fresh found,?_,nofun⟩)
      exact ⟨_,by rw [lookupInsert, if_pos rfl],rfl,size,chunksTokens tokens⟩

theorem redeemEnds (redeems : op.redeems = some (token,agent,pubkey)) :
    Ends (redeem token agent pubkey op.now) s (fun r m => Effect s op (.redeemed r) m) := by
  unfold redeem
  refine endsBind (fun outcome m => Effect s op (.redeemed (outcome.mapError .enroll)) m) ?_ ?_
  · refine endsTransaction (.idle nofun) (endsSelect (.idle nofun) ?_)
    cases found : s.joinTokens[token]? with
    | none => exact endsThrow (.idle nofun)
    | some row =>
      dsimp only
      split
      case isTrue => exact endsThrow (.idle nofun)
      case isFalse fresh =>
        rw [not_not] at fresh
        refine endsExecute (.idle nofun) ?_
        split
        case isTrue late => exact endsPure (.lapsed redeems found fresh late)
        case isFalse live =>
          refine endsExecute (.idle nofun) (endsPure (.bound redeems found fresh ?_))
          omega
  · intro outcome m effect
    cases outcome with
    | ok tenant => exact endsPure effect
    | error e => exact endsThrow effect

theorem pruneTokensEnds (now : UInt64) : Ends (pruneRedeemedJoinTokens now) s (fun r m => Effect s op (.removed r) m) := by
  refine endsLast (endsExecute (.idle ?_) (endsPure (.swept ?_ _))) <;> nofun

theorem pruneBatchEnds (now maxAgeSecs : UInt64) :
    Ends (pruneBatchIssuance now maxAgeSecs) s (fun r m => Effect s (.pruneBatchIssuance now maxAgeSecs) (.removed r) m) :=
  endsLast (endsExecute (.idle nofun) (endsPure (.forgotten nofun rfl)))

theorem stepEffect (verify : JoinToken → AgentPublicKey → Proof → Bool) (s : Tables) (call : Call) :
    Effect s call.op (step verify s call).1 (step verify s call).2 := by
  obtain ⟨op,faults⟩ := call
  cases op with
  | issueJoinToken => exact issueJoinTokenEnds _ _ _ faults
  | issueJoinTokens => exact issueJoinTokensEnds _ _ _ _ faults
  | issueJoinTokensIdempotent => exact (issueIdempotentEnds _ _ _ _ _ faults).1
  | redeem => exact @redeemEnds _ (.redeem _ _ _ _) _ _ _ rfl faults
  | redeemWithProof token agent pubkey proof now =>
    have ends : Ends (redeemWithProof verify token agent pubkey proof now) s (fun r m =>
        Effect s (.redeemWithProof token agent pubkey proof now) (.redeemed r) m) := by
      unfold redeemWithProof
      split
      case isTrue => exact endsThrow (.idle nofun)
      case isFalse => exact @redeemEnds _ (.redeemWithProof token agent pubkey proof now) _ _ _ rfl
    exact ends faults
  | pruneRedeemedJoinTokens => exact pruneTokensEnds _ faults
  | pruneBatchIssuance => exact pruneBatchEnds _ _ faults

end Calls

section Runs
variable {verify : JoinToken → AgentPublicKey → Proof → Bool} {s start : Tables} {call : Call} {token : JoinToken} {key : String}

/- The row of the token enters the table with the call. -/
def Mints (verify : JoinToken → AgentPublicKey → Proof → Bool) (s : Tables) (call : Call) (token : JoinToken) : Prop :=
  token ∉ s.joinTokens ∧ token ∈ (step verify s call).2.joinTokens

def Binds (verify : JoinToken → AgentPublicKey → Proof → Bool) (s : Tables) (call : Call) (token : JoinToken) : Prop :=
  ∃ agent pubkey tenant, call.op.redeems = some (token,agent,pubkey) ∧ (step verify s call).1 = .redeemed (.ok tenant)

def Spent (token : JoinToken) (s : Tables) : Prop := ∀ row : TokenRow, s.joinTokens[token]? = some row → row.redeemed ≠ 0

theorem lookupConsumed (token t : JoinToken) (rows : BTreeMap JoinToken TokenRow) :
    (consumed token rows)[t]? = rows[t]?.map (fun row => if t = token then { row with redeemed := 1 } else row) := by
  rw [consumed, lookupUpdated]
  simp only [decide_eq_true_eq]

/- A row keeps its tenant and its expiry and stays used, or it is new. -/
structure Aged (old row : TokenRow) : Prop where
  tenant : row.tenant = old.tenant
  expiresAt : row.expiresAt = old.expiresAt
  used : old.redeemed ≠ 0 → row.redeemed ≠ 0

theorem agedSelf (row : TokenRow) : Aged row row := ⟨rfl,rfl,id⟩

theorem agedConsumed {t : JoinToken} {row : TokenRow} (found : (consumed token s.joinTokens)[t]? = some row) :
    ∃ old, s.joinTokens[t]? = some old ∧ Aged old row := by
  rw [lookupConsumed] at found
  obtain ⟨old,here,same⟩ := Option.map_eq_some_iff.mp found
  refine ⟨old,here,?_⟩
  rw [← same]
  split
  · exact ⟨rfl,rfl,fun _ => one_ne_zero⟩
  · exact agedSelf old

theorem agedMinted {tokens : List JoinToken} {fresh : TokenRow} {t : JoinToken} {row : TokenRow} (absent : ∀ t ∈ tokens, t ∉ s.joinTokens)
    (found : (insertAll tokens (fun _ => fresh) s.joinTokens)[t]? = some row) :
    (∃ old, s.joinTokens[t]? = some old ∧ Aged old row) ∨ t ∉ s.joinTokens ∧ row = fresh := by
  rw [lookupInsertAll] at found
  split at found
  case isTrue mem => exact .inr ⟨absent t mem,(Option.some.inj found).symm⟩
  case isFalse => exact .inl ⟨row,found,agedSelf row⟩

theorem effectRow {op : Op} {answer : Answer} {m : Tables} (effect : Effect s op answer m) {t : JoinToken} {row : TokenRow}
    (found : m.joinTokens[t]? = some row) :
    (∃ old, s.joinTokens[t]? = some old ∧ Aged old row) ∨ t ∉ s.joinTokens ∧ row.expiresAt = expiry op.now := by
  cases effect with
  | idle => exact .inl ⟨row,found,agedSelf row⟩
  | minted tokens calm fresh => exact (agedMinted fresh found).imp_right (fun new => ⟨new.1,by rw [new.2]⟩)
  | recorded tokens blob calm fresh => exact (agedMinted fresh found).imp_right (fun new => ⟨new.1,by rw [new.2]⟩)
  | bound => exact .inl (agedConsumed found)
  | lapsed => exact .inl (agedConsumed found)
  | swept =>
    rw [lookupDeleted, Option.filter_eq_some_iff] at found
    exact .inl ⟨row,found.1,agedSelf row⟩
  | forgotten => exact .inl ⟨row,found,agedSelf row⟩

theorem spentStep (spent : Spent token s) : Spent token (step verify s call).2 ∨ Mints verify s call token := by
  by_cases mints : Mints verify s call token
  · exact .inr mints
  · refine .inl ?_
    intro row found
    obtain ⟨old,here,aged⟩ | ⟨absent,_⟩ := effectRow (stepEffect verify s call) found
    · exact aged.used (spent old here)
    · exact absurd ⟨absent,ExtTreeMap.mem_iff_isSome_getElem?.mpr (by rw [found]; rfl)⟩ mints

theorem runSpent {window : List Call} (spent : Spent token s) :
    Spent token (run verify s window) ∨
      ∃ earlier mint later, window = earlier ++ mint :: later ∧ Mints verify (run verify s earlier) mint token := by
  induction window generalizing s with
  | nil => exact .inl spent
  | cons call rest ih =>
    obtain still | mints := @spentStep verify _ call _ spent
    · obtain all | ⟨earlier,mint,later,split,mints⟩ := ih still
      · exact .inl all
      · exact .inr ⟨call :: earlier,mint,later,by rw [split]; rfl,mints⟩
    · exact .inr ⟨[],call,rest,rfl,mints⟩

theorem effectBound {op : Op} {tenant : String} {m : Tables} (effect : Effect s op (.redeemed (.ok tenant)) m) :
    ∃ token agent pubkey, op.redeems = some (token,agent,pubkey) ∧ ∃ row, s.joinTokens[token]? = some row ∧ row.redeemed = 0 ∧
      (row.expiresAt = 0 ∨ asI64 op.now ≤ row.expiresAt) ∧ row.tenant = tenant ∧
        m = { s with joinTokens := consumed token s.joinTokens, agentBindings := s.agentBindings.insert agent ⟨tenant,pubkey⟩ } := by
  cases effect with
  | bound redeems found unused live => exact ⟨_,_,_,redeems,_,found,unused,live,rfl,rfl⟩
  | idle calm => exact absurd trivial calm
  | minted _ other => exact absurd trivial other
  | recorded _ _ other => exact absurd trivial other
  | swept other => exact absurd trivial other
  | forgotten other => exact absurd trivial other

/- A redemption that fails leaves the tables as they are, or uses up a token that has expired. -/
theorem effectRefused {op : Op} {e : RedeemError} {m : Tables} (effect : Effect s op (.redeemed (.error e)) m) :
    e ≠ .enroll .expired ∧ m = s ∨ e = .enroll .expired ∧
      ∃ token agent pubkey, op.redeems = some (token,agent,pubkey) ∧ ∃ row, s.joinTokens[token]? = some row ∧ row.redeemed = 0 ∧
        (row.expiresAt ≠ 0 ∧ row.expiresAt < asI64 op.now) ∧ m = { s with joinTokens := consumed token s.joinTokens } := by
  cases effect with
  | idle calm => exact .inl ⟨fun same => calm (by rw [same]; trivial),rfl⟩
  | lapsed redeems found unused late => exact .inr ⟨rfl,_,_,_,redeems,_,found,unused,late,rfl⟩
  | minted _ other => exact absurd trivial other
  | recorded _ _ other => exact absurd trivial other
  | swept other => exact absurd trivial other
  | forgotten other => exact absurd trivial other

/- A binding found its token unused and unexpired, and leaves it used. -/
theorem bindsRow (binds : Binds verify s call token) :
    (∃ row, s.joinTokens[token]? = some row ∧ row.redeemed = 0 ∧ (row.expiresAt = 0 ∨ asI64 call.op.now ≤ row.expiresAt)) ∧
      Spent token (step verify s call).2 := by
  obtain ⟨agent,pubkey,tenant,redeems,ok⟩ := binds
  have effect := stepEffect verify s call
  obtain ⟨⟨answer,m⟩,out⟩ : ∃ out, step verify s call = out := ⟨_,rfl⟩
  rw [out] at ok effect ⊢
  subst ok
  obtain ⟨_,_,_,redeems',row,found,unused,live,_,rfl⟩ := effectBound effect
  rw [redeems] at redeems'
  obtain ⟨rfl,_⟩ := Prod.mk.inj (Option.some.inj redeems')
  refine ⟨⟨row,found,unused,live⟩,?_⟩
  intro later here
  dsimp only at here
  rw [lookupConsumed, found, Option.map_some, if_pos rfl] at here
  rw [← Option.some.inj here]
  exact one_ne_zero

theorem replayGoes (tenant : String) (count : Nat) (now : UInt64) (fill : Nat → JoinToken) {row : BatchRow}
    (found : s.batchIssuance[key]? = some row) :
    Goes 3 (issueJoinTokensIdempotent tenant count key now fill) s (fun r _ => r = replayed row tenant count) := by
  refine goesTransaction (goesSelect (n := 0) ?_)
  rw [found]
  dsimp only
  split
  case isTrue other => exact goesThrow (by rw [replayed, if_pos other])
  case isFalse same => exact goesPure (by rw [replayed, if_neg same])

/- Where the rows of the tokens come from, and with which expiry. -/
def Known (verify : JoinToken → AgentPublicKey → Proof → Bool) (start : Tables) (calls : List Call) (s : Tables) : Prop :=
  ∀ (t : JoinToken) (row : TokenRow), s.joinTokens[t]? = some row → (∃ old, start.joinTokens[t]? = some old ∧ Aged old row) ∨
    ∃ earlier mint later, calls = earlier ++ mint :: later ∧ Mints verify (run verify start earlier) mint t ∧
      row.expiresAt = expiry mint.op.now

theorem runKnown (verify : JoinToken → AgentPublicKey → Proof → Bool) (start : Tables) (calls : List Call) :
    Known verify start calls (run verify start calls) := by
  induction calls using List.reverseRecOn with
  | nil => exact fun _ row found => .inl ⟨row,found,agedSelf row⟩
  | append_singleton calls call ih =>
    intro t row found
    rw [run, Machine.runNext] at found
    obtain ⟨old,here,aged⟩ | ⟨absent,expires⟩ := effectRow (stepEffect verify _ call) found
    · obtain ⟨first,at',older⟩ | ⟨earlier,mint,later,split,mints,expires⟩ := ih t old here
      · exact .inl ⟨first,at',aged.tenant.trans older.tenant,aged.expiresAt.trans older.expiresAt,fun used => aged.used (older.used used)⟩
      · exact .inr ⟨earlier,mint,later ++ [call],by rw [split]; simp,mints,aged.expiresAt.trans expires⟩
    · refine .inr ⟨calls,call,[],rfl,⟨absent,?_⟩,expires⟩
      exact ExtTreeMap.mem_iff_isSome_getElem?.mpr (by rw [run, found]; rfl)

theorem expiryWithin (now : UInt64) : expiry now ≤ now.toNat + 604800 ∧ expiry now ≠ 0 := by
  have ttl : joinTokenTtlSecs.toNat = 604800 := rfl
  have sum : (saturatingAdd now joinTokenTtlSecs).toNat ≤ now.toNat + 604800 ∧ 0 < (saturatingAdd now joinTokenTtlSecs).toNat := by
    unfold saturatingAdd
    cases added : checkedAdd now joinTokenTtlSecs with
    | some c =>
      have total := checkedAddSome added
      rw [Option.getD_some]
      omega
    | none =>
      have bound := now.toNat_lt
      unfold checkedAdd at added
      split at added <;> try contradiction
      rw [Option.getD_none]
      constructor
      · show 2 ^ 64 - 1 ≤ _
        omega
      · decide
  unfold expiry
  by_cases small : (saturatingAdd now joinTokenTtlSecs).toNat < 2 ^ 63
  · rw [asI64Small small]
    omega
  · have low := asI64Large small
    omega

/- A record stays as it is until a prune that it is too old for. -/
theorem recordStep {row : BatchRow} (found : s.batchIssuance[key]? = some row) :
    (step verify s call).2.batchIssuance[key]? = some row ∨ key ∉ (step verify s call).2.batchIssuance ∧
      ∃ now maxAgeSecs, call.op = .pruneBatchIssuance now maxAgeSecs ∧ row.createdAt ≠ 0 ∧ row.createdAt < asI64 (saturatingSub now maxAgeSecs) := by
  have effect := stepEffect verify s call
  obtain ⟨⟨answer,m⟩,out⟩ : ∃ out, step verify s call = out := ⟨_,rfl⟩
  rw [out] at effect ⊢
  cases effect with
  | idle => exact .inl found
  | minted => exact .inl found
  | recorded tokens blob other fresh absent =>
    refine .inl ?_
    dsimp only
    rw [lookupInsert, if_neg, found]
    rintro rfl
    rw [absent] at found
    contradiction
  | bound => exact .inl found
  | lapsed => exact .inl found
  | swept => exact .inl found
  | @forgotten _ now maxAgeSecs other prunes =>
    dsimp only
    rw [ExtTreeMap.mem_iff_isSome_getElem?, lookupDeleted, found]
    by_cases old : row.createdAt ≠ 0 ∧ row.createdAt < asI64 (saturatingSub now maxAgeSecs)
    · exact .inr ⟨by simp [Option.filter, old],_,_,prunes,old⟩
    · exact .inl (by simp [Option.filter, old])

theorem runRecord {window : List Call} {row : BatchRow} (found : s.batchIssuance[key]? = some row)
    (kept : ∀ earlier later, window = earlier ++ later → key ∈ (run verify s earlier).batchIssuance) :
    (run verify s window).batchIssuance[key]? = some row := by
  induction window generalizing s with
  | nil => exact found
  | cons call rest ih =>
    have still := kept [call] rest rfl
    obtain same | ⟨gone,_⟩ := @recordStep verify s call _ _ found
    · exact ih same (fun earlier later split => kept (call :: earlier) later (by rw [split]; rfl))
    · exact absurd still gone

/- What the store keeps to, whatever it held at the start. A token binds once after each time it was minted and only until its expiry. A
failed redemption leaves everything as it was, but for the expired token that it uses up. While the record of a batch is there, a repetition
answers the same tokens and another request with its key is refused, and neither changes anything; a record goes only when a prune finds it old. -/
structure Sound (verify : JoinToken → AgentPublicKey → Proof → Bool) (start : Tables) (calls : List Call) : Prop where
  once : ∀ before first between second after token, calls = before ++ first :: (between ++ second :: after) →
    Binds verify (run verify start before) first token → Binds verify (run verify start (before ++ first :: between)) second token →
    ∃ earlier mint later, between = earlier ++ mint :: later ∧ Mints verify (run verify start (before ++ first :: earlier)) mint token
  unexpired : ∀ before call after token, calls = before ++ call :: after → Binds verify (run verify start before) call token →
    call.op.now.toNat < 2 ^ 63 →
    (∃ row, start.joinTokens[token]? = some row ∧ row.redeemed = 0 ∧ (row.expiresAt = 0 ∨ call.op.now.toNat ≤ row.expiresAt)) ∨
      ∃ earlier mint later, before = earlier ++ mint :: later ∧ Mints verify (run verify start earlier) mint token ∧
        call.op.now.toNat ≤ mint.op.now.toNat + joinTokenTtlSecs.toNat
  refused : ∀ before call after e, calls = before ++ call :: after →
    (step verify (run verify start before) call).1 = .redeemed (.error e) →
    (e ≠ .enroll .expired → (step verify (run verify start before) call).2 = run verify start before) ∧
      (e = .enroll .expired → ∃ token agent pubkey, call.op.redeems = some (token,agent,pubkey) ∧
        ∃ row, (run verify start before).joinTokens[token]? = some row ∧ row.redeemed = 0 ∧ row.expiresAt ≠ 0 ∧
          row.expiresAt < asI64 call.op.now ∧ (step verify (run verify start before) call).2 =
            { run verify start before with joinTokens := consumed token (run verify start before).joinTokens })
  proven : ∀ before token agent pubkey proof now faults after, calls = before ++ ⟨.redeemWithProof token agent pubkey proof now,faults⟩ :: after →
    verify token pubkey proof = false →
    step verify (run verify start before) ⟨.redeemWithProof token agent pubkey proof now,faults⟩ =
      (.redeemed (.error (.enroll .badProof)),run verify start before)
  replays : ∀ before between after key tenant count now fill faults tokens tenant' count' now' fill' faults',
    let first : Call := ⟨.issueJoinTokensIdempotent tenant count key now fill,faults⟩
    let second : Call := ⟨.issueJoinTokensIdempotent tenant' count' key now' fill',faults'⟩
    calls = before ++ first :: (between ++ second :: after) →
    (step verify (run verify start before) first).1 = .batch (.ok tokens) →
    (∀ earlier later, between = earlier ++ later → key ∈ (run verify start (before ++ first :: earlier)).batchIssuance) →
    let later := run verify start (before ++ first :: between)
    let answer : Except IssueBatchError (List JoinToken) := if tenant' = tenant ∧ count' = count then .ok tokens else .error .conflict
    (step verify later second).2 = later ∧
      ((step verify later second).1 = .batch answer ∨ (step verify later second).1 = .batch (.error (.db .failure))) ∧
      (true ∉ faults'.take 3 → (step verify later second).1 = .batch answer)
  recorded : ∀ before call after key row, calls = before ++ call :: after → (run verify start before).batchIssuance[key]? = some row →
    (step verify (run verify start before) call).2.batchIssuance[key]? = some row ∨
      key ∉ (step verify (run verify start before) call).2.batchIssuance ∧ ∃ now maxAgeSecs, call.op = .pruneBatchIssuance now maxAgeSecs ∧
        row.createdAt ≠ 0 ∧ row.createdAt < asI64 (saturatingSub now maxAgeSecs)

theorem replayedSame {row : BatchRow} {tenant : String} {count : Nat} (tenantSame : row.tenant = tenant) (countSame : row.tokens.length = count * 32)
    (tenant' : String) (count' : Nat) :
    replayed row tenant' count' = if tenant' = tenant ∧ count' = count then .ok (chunksExact row.tokens) else .error .conflict := by
  unfold replayed
  by_cases same : tenant' = tenant ∧ count' = count
  · rw [if_pos same, if_neg]
    rw [same.1, same.2]
    simp [tenantSame, countSame]
  · rw [if_neg same, if_pos]
    rw [tenantSame, countSame]
    by_contra agreed
    rw [not_or, not_not, not_not] at agreed
    exact same ⟨agreed.1.symm,by omega⟩

theorem replaysRun {tenant tenant' : String} {count count' : Nat} {now now' : UInt64} {fill fill' : Nat → JoinToken} {faults faults' : List Bool}
    {tokens : List JoinToken} {between : List Call}
    (ok : (step verify s ⟨.issueJoinTokensIdempotent tenant count key now fill,faults⟩).1 = .batch (.ok tokens))
    (kept : ∀ earlier later, between = earlier ++ later →
      key ∈ (run verify s (⟨.issueJoinTokensIdempotent tenant count key now fill,faults⟩ :: earlier)).batchIssuance) :
    let later := run verify s (⟨.issueJoinTokensIdempotent tenant count key now fill,faults⟩ :: between)
    let second : Call := ⟨.issueJoinTokensIdempotent tenant' count' key now' fill',faults'⟩
    let answer : Except IssueBatchError (List JoinToken) := if tenant' = tenant ∧ count' = count then .ok tokens else .error .conflict
    (step verify later second).2 = later ∧
      ((step verify later second).1 = .batch answer ∨ (step verify later second).1 = .batch (.error (.db .failure))) ∧
      (true ∉ faults'.take 3 → (step verify later second).1 = .batch answer) := by
  intro later second answer
  have remembers := (issueIdempotentEnds (s := s) tenant count key now fill faults).2.1
  have minted : (perform (issueJoinTokensIdempotent tenant count key now fill) s faults).1 = .ok tokens := Answer.batch.inj ok
  rw [minted] at remembers
  obtain ⟨row,found,tenantSame,countSame,rfl⟩ := remembers
  have still : later.batchIssuance[key]? = some row :=
    runRecord (s := (perform (issueJoinTokensIdempotent tenant count key now fill) s faults).2) found kept
  have same := replayedSame tenantSame countSame tenant' count'
  obtain ⟨idle,answered⟩ := (issueIdempotentEnds (s := later) tenant' count' key now' fill' faults').2.2 row still
  refine ⟨idle,?_,?_⟩
  · rw [same] at answered
    exact answered.imp (congrArg Answer.batch) (congrArg Answer.batch)
  · intro quiet
    have goes := goesEnd (replayGoes tenant' count' now' fill' still) quiet
    rw [same] at goes
    exact congrArg Answer.batch goes

theorem joinTokensSound (verify : JoinToken → AgentPublicKey → Proof → Bool) (start : Tables) (calls : List Call) :
    Sound verify start calls where
  once before first between second after token split binds again := by
    have spent := (bindsRow binds).2
    have window : run verify start (before ++ first :: between) = run verify (step verify (run verify start before) first).2 between := by
      rw [run, Machine.runAppend]
      rfl
    obtain all | ⟨earlier,mint,later,parts,mints⟩ := @runSpent verify _ _ between spent
    · obtain ⟨⟨row,found,unused,_⟩,_⟩ := bindsRow again
      rw [window] at found
      exact absurd unused (all row found)
    · refine ⟨earlier,mint,later,parts,?_⟩
      rw [run, Machine.runAppend]
      exact mints
  unexpired before call after token split binds small := by
    obtain ⟨⟨row,found,unused,live⟩,_⟩ := bindsRow binds
    rw [asI64Small small] at live
    obtain ⟨old,here,aged⟩ | ⟨earlier,mint,later,parts,mints,expires⟩ := runKnown verify start before token row found
    · refine .inl ⟨old,here,?_,by rwa [← aged.expiresAt]⟩
      by_contra used
      exact aged.used used unused
    · refine .inr ⟨earlier,mint,later,parts,mints,?_⟩
      have within := expiryWithin mint.op.now
      rw [expires] at live
      show call.op.now.toNat ≤ mint.op.now.toNat + 604800
      omega
  refused before call after e split failed := by
    have effect := stepEffect verify (run verify start before) call
    rw [failed] at effect
    obtain ⟨other,same⟩ | ⟨expired,token,agent,pubkey,redeems,row,found,unused,late,next⟩ := effectRefused effect
    · exact ⟨fun _ => same,fun expired => absurd expired other⟩
    · exact ⟨fun other => absurd expired other,fun _ => ⟨token,agent,pubkey,redeems,row,found,unused,late.1,late.2,next⟩⟩
  proven before token agent pubkey proof now faults after split bad := by
    have refuses : perform (redeemWithProof verify token agent pubkey proof now) (run verify start before) faults =
        (.error (.enroll .badProof),run verify start before) := by
      rw [redeemWithProof, bad]
      rfl
    show settle .redeemed (redeemWithProof verify token agent pubkey proof now) _ faults = _
    rw [settle, refuses]
  replays := by
    intro before between after key tenant count now fill faults tokens tenant' count' now' fill' faults' first second split ok kept
    have joined : ∀ window, run verify start (before ++ first :: window) = run verify (run verify start before) (first :: window) :=
      fun window => by rw [run, Machine.runAppend]; rfl
    simp only [joined] at kept ⊢
    exact replaysRun ok kept
  recorded before call after key row split found := recordStep found

/- A token redeemed a second after its expiry is refused, and used up. -/
theorem expiredTokenUsedUp : ¬∀ (verify : JoinToken → AgentPublicKey → Proof → Bool) (calls : List Call) (call : Call) (e : RedeemError)
    (token : JoinToken), (step verify (run verify {} calls) call).1 = .redeemed (.error e) →
      ((step verify (run verify {} calls) call).2.joinTokens[token]?.map TokenRow.redeemed) =
        ((run verify {} calls).joinTokens[token]?.map TokenRow.redeemed) := by
  intro unchanged
  have same := unchanged (fun _ _ _ => true) [⟨.issueJoinToken "tenant" 0 (.replicate 32 7),[]⟩]
    ⟨.redeem (.replicate 32 7) "agent" (.replicate 32 1) 604801,[]⟩ (.enroll .expired) (.replicate 32 7)
    (by decide +kernel)
  revert same
  decide +kernel

end Runs
section Tenants
variable {verify : JoinToken → AgentPublicKey → Proof → Bool} {s start : Tables} {call : Call} {calls : List Call}

/- A redemption leaves the agents of other tenants than its token's as they are. -/
def Isolated (verify : JoinToken → AgentPublicKey → Proof → Bool) (start : Tables) (calls : List Call) : Prop :=
  ∀ before call after token agent pubkey (row : TokenRow) (id : String) (binding : BindingRow), calls = before ++ call :: after →
    call.op.redeems = some (token,agent,pubkey) → (run verify start before).joinTokens[token]? = some row →
    (run verify start before).agentBindings[id]? = some binding → binding.tenant ≠ row.tenant →
    (run verify start (before ++ [call])).agentBindings[id]? = some binding

def Op.proven (verify : JoinToken → AgentPublicKey → Proof → Bool) : Op → Prop
  | .redeemWithProof token _ pubkey proof _ => verify token pubkey proof = true
  | _ => True

/- A usable token of one tenant is redeemed for an agent that is bound to another: the key of the table is the agent alone. -/
def Crosses (verify : JoinToken → AgentPublicKey → Proof → Bool) (s : Tables) (call : Call) : Prop :=
  call.op.proven verify ∧ ∃ token agent pubkey, call.op.redeems = some (token,agent,pubkey) ∧ ∃ row binding,
    s.joinTokens[token]? = some row ∧ row.redeemed = 0 ∧ (row.expiresAt = 0 ∨ asI64 call.op.now ≤ row.expiresAt) ∧
    s.agentBindings[agent]? = some binding ∧ binding.tenant ≠ row.tenant

theorem boundProven {tenant : String} (ok : (step verify s call).1 = .redeemed (.ok tenant)) : call.op.proven verify := by
  obtain ⟨op,faults⟩ := call
  cases op with
  | redeemWithProof token agent pubkey proof now =>
    by_contra bad
    have refuses : (perform (redeemWithProof verify token agent pubkey proof now) s faults).1 = .error (.enroll .badProof) := by
      have refused : verify token pubkey proof = false := by simpa [Op.proven] using bad
      rw [redeemWithProof, refused]
      rfl
    have same : (perform (redeemWithProof verify token agent pubkey proof now) s faults).1 = .ok tenant := Answer.redeemed.inj ok
    rw [refuses] at same
    contradiction
  | issueJoinToken => trivial
  | issueJoinTokens => trivial
  | issueJoinTokensIdempotent => trivial
  | redeem => trivial
  | pruneRedeemedJoinTokens => trivial
  | pruneBatchIssuance => trivial

theorem effectBinding {op : Op} {answer : Answer} {m : Tables} (effect : Effect s op answer m) {id : String} {binding : BindingRow}
    (found : s.agentBindings[id]? = some binding) : m.agentBindings[id]? = some binding ∨
      ∃ token pubkey, op.redeems = some (token,id,pubkey) ∧ ∃ row, s.joinTokens[token]? = some row ∧ row.redeemed = 0 ∧
        (row.expiresAt = 0 ∨ asI64 op.now ≤ row.expiresAt) ∧ answer = .redeemed (.ok row.tenant) := by
  cases effect with
  | @bound token agent pubkey row redeems here unused live =>
    by_cases same : id = agent
    · exact .inr ⟨_,_,same ▸ redeems,_,here,unused,live,rfl⟩
    · refine .inl ?_
      dsimp only
      rw [lookupInsert, if_neg same, found]
  | idle => exact .inl found
  | minted => exact .inl found
  | recorded => exact .inl found
  | lapsed => exact .inl found
  | swept => exact .inl found
  | forgotten => exact .inl found

theorem redeemGoes {token : JoinToken} {agent : String} {pubkey : AgentPublicKey} {now : UInt64} {row : TokenRow}
    (found : s.joinTokens[token]? = some row) (unused : row.redeemed = 0) (live : row.expiresAt = 0 ∨ asI64 now ≤ row.expiresAt) :
    Goes 5 (redeem token agent pubkey now) s (fun _ m => m.agentBindings = s.agentBindings.insert agent ⟨row.tenant,pubkey⟩) := by
  refine goesBind (n := 5) (m := 0) (fun _ m => m.agentBindings = s.agentBindings.insert agent ⟨row.tenant,pubkey⟩) ?_ ?_
  · refine goesTransaction (n := 3) (goesSelect (n := 2) ?_)
    rw [found]
    dsimp only
    rw [if_neg (not_not.mpr unused)]
    refine goesExecute (n := 1) ?_
    rw [if_neg (by omega)]
    exact goesExecute (n := 0) (goesPure rfl)
  · intro outcome m held
    cases outcome with
    | ok tenant => exact goesPure held
    | error e => exact goesThrow held

theorem crossedBinding (crosses : Crosses verify s call) (quiet : true ∉ call.faults.take 5) :
    ∃ token agent pubkey, call.op.redeems = some (token,agent,pubkey) ∧ ∃ row binding, s.joinTokens[token]? = some row ∧
      s.agentBindings[agent]? = some binding ∧ binding.tenant ≠ row.tenant ∧
      (step verify s call).2.agentBindings[agent]? = some ⟨row.tenant,pubkey⟩ := by
  obtain ⟨proven,token,agent,pubkey,redeems,row,binding,found,unused,live,held,other⟩ := crosses
  refine ⟨token,agent,pubkey,redeems,row,binding,found,held,other,?_⟩
  obtain ⟨op,faults⟩ := call
  have written : ∀ {m : Tables}, m.agentBindings = s.agentBindings.insert agent ⟨row.tenant,pubkey⟩ →
      m.agentBindings[agent]? = some ⟨row.tenant,pubkey⟩ := fun same => by rw [same, lookupInsert, if_pos rfl]
  cases op with
  | redeem token' agent' pubkey' now =>
    obtain ⟨rfl,rfl,rfl⟩ := Option.some.inj redeems
    exact written (goesEnd (redeemGoes found unused live) quiet)
  | redeemWithProof token' agent' pubkey' proof now =>
    obtain ⟨rfl,rfl,rfl⟩ := Option.some.inj redeems
    have same : redeemWithProof verify token agent pubkey proof now = redeem token agent pubkey now := by
      rw [redeemWithProof, if_neg]
      simpa [Op.proven] using proven
    refine written ?_
    show (perform (redeemWithProof verify token agent pubkey proof now) s faults).2.agentBindings = _
    rw [same]
    exact goesEnd (redeemGoes found unused live) quiet
  | issueJoinToken => contradiction
  | issueJoinTokens => contradiction
  | issueJoinTokensIdempotent => contradiction
  | pruneRedeemedJoinTokens => contradiction
  | pruneBatchIssuance => contradiction

/- The bindings of a tenant are safe from the tokens of others as long as no usable token is redeemed across tenants; and every such
redemption whose statements go through overwrites one. -/
theorem bindingsIsolated (verify : JoinToken → AgentPublicKey → Proof → Bool) (start : Tables) (calls : List Call) :
    ((∀ before call after, calls = before ++ call :: after → ¬Crosses verify (run verify start before) call) → Isolated verify start calls) ∧
    ((∀ call ∈ calls, true ∉ call.faults.take 5) → Isolated verify start calls →
      ∀ before call after, calls = before ++ call :: after → ¬Crosses verify (run verify start before) call) := by
  constructor
  · intro apart before call after token agent pubkey row id binding split redeems found held other
    rw [run, Machine.runNext]
    obtain same | ⟨token',pubkey',redeems',row',found',unused,live,ok⟩ := effectBinding (stepEffect verify (run verify start before) call) held
    · exact same
    · rw [redeems] at redeems'
      obtain ⟨rfl,rfl,rfl⟩ := Option.some.inj redeems'
      rw [found] at found'
      cases Option.some.inj found'
      exact absurd ⟨boundProven ok,token,agent,pubkey,redeems,row,binding,found,unused,live,held,other⟩ (apart before call after split)
  · intro quiet isolated before call after split crosses
    obtain ⟨token,agent,pubkey,redeems,row,binding,found,held,other,next⟩ :=
      crossedBinding crosses (quiet call (by rw [split]; simp))
    have same := isolated before call after token agent pubkey row agent binding split redeems found held other
    rw [run, Machine.runNext] at same
    have taken : some (⟨row.tenant,pubkey⟩ : BindingRow) = some binding := next.symm.trans same
    exact other (by rw [← Option.some.inj taken])

/- The second tenant's token takes the first tenant's agent. -/
theorem agentTaken : ¬∀ (verify : JoinToken → AgentPublicKey → Proof → Bool) (calls : List Call), Isolated verify {} calls := by
  intro isolated
  let calls : List Call :=
    [⟨.issueJoinToken "first" 0 (.replicate 32 1),[]⟩,⟨.issueJoinToken "second" 0 (.replicate 32 2),[]⟩,
      ⟨.redeem (.replicate 32 1) "agent" (.replicate 32 8) 1,[]⟩]
  have same := isolated (fun _ _ _ => true) (calls ++ [⟨.redeem (.replicate 32 2) "agent" (.replicate 32 9) 2,[]⟩]) calls _ [] _ _ _
    ⟨"second",0,604800⟩ "agent" ⟨"first",.replicate 32 8⟩ rfl rfl (by decide +kernel) (by decide +kernel) (by decide)
  revert same
  decide +kernel

end Tenants
end CadsTunnel.Enrollment
