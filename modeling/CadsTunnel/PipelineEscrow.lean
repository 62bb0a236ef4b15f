import CadsTunnel.PipelineConvene
import CadsTunnel.SettlementEscrow

/-! From convened pipelines to locked funds. The reference of a role's hold hashes the
pipeline, the provider, the units and the price, but nothing that tells one run of the
pipeline from the next. The holds of one run never collide; a later run in which a
provider clears the same role on the same terms does, as long as the first hold is
open. -/
namespace CadsTunnel.Pipeline
open Words Delimited OrderedMap ChannelObjects Settlement
open Settlement.Escrow (Admits lockCases)

def roleMatchPreimage (pipelineId : String) (a : RoleAssignment) : Bytes :=
  Preimage.new (asBytes "ct-pipeline-escrow-match-v1")
    |>.varBytes (asBytes pipelineId) |>.fixed a.provider.toList |>.u64 a.units |>.u64 a.price |>.finish

def roleMatchRef (crypto : Crypto) (pipelineId : String) (a : RoleAssignment) : Hash :=
  crypto.sha256 (roleMatchPreimage pipelineId a)

/- The buyer's key, as what it signs under its account. -/
structure SigningKey where
  account : Account
  sign : Bytes → Signature

def signHold (key : SigningKey) (recipient : Account) (amount : Amount) (matchRef : Hash) (nonce expiresAt : UInt64) : Hold :=
  ⟨key.account,recipient,amount,matchRef,nonce,expiresAt,key.sign (Hold.signingBytes key.account recipient amount matchRef nonce expiresAt)⟩

def holdsForConvened (crypto : Crypto) (pipelineId : String) (assignments : List RoleAssignment) (key : SigningKey)
    (firstNonce : UInt64) (expiresAt : UnixSeconds) : List Hold :=
  assignments.zipIdx.map fun entry =>
    signHold key entry.1.provider entry.1.price (roleMatchRef crypto pipelineId entry.1) (firstNonce + .ofNat entry.2) expiresAt

/- One convened run of a pipeline: everything the auction read, and what it answered. -/
structure Convened where
  spec : PipelineSpec
  offers : List CapacityOffer
  now : UnixSeconds
  policyFor : RequiredRole → SelectionPolicy
  state : SelectionState
  assignments : List RoleAssignment
  expiresAt : UnixSeconds

def Convened.Succeeded (crypto : Crypto) (run : Convened) : Prop :=
  (run.spec.conveneRoles crypto run.offers run.now run.policyFor run.state).1 = .ok run.assignments

/- The holds of the runs, one run after the other, with consecutive nonces. -/
def holdsOf (crypto : Crypto) (key : SigningKey) : UInt64 → List Convened → List Hold
  | _, [] => []
  | nonce, run :: rest =>
    holdsForConvened crypto run.spec.id run.assignments key nonce run.expiresAt ++
      holdsOf crypto key (nonce + .ofNat run.assignments.length) rest

def refsOf (crypto : Crypto) (run : Convened) : List Hash := run.assignments.map (roleMatchRef crypto run.spec.id)

/- Every hold locks, in the state that the holds before it leave. -/
def AllLock (crypto : Crypto) (e : Escrow) (holds : List Hold) : Prop :=
  Machine.along (Escrow.call crypto) (fun e op => (e.call crypto op).1 = .returned (.ok ())) e (holds.map .lock)

/- The two roles are cleared on the same terms in the same pipeline. -/
structure SameTerms (r s : Convened) (a b : RoleAssignment) : Prop where
  pipeline : r.spec.id = s.spec.id
  provider : a.provider = b.provider
  units : a.units = b.units
  price : a.price = b.price

section Locking
variable {crypto : Crypto} {key : SigningKey}

/- The holds are signed by one account, with its next nonces. -/
inductive Consecutive (crypto : Crypto) (account : Account) : UInt64 → List Hold → Prop
  | nil {nonce} : Consecutive crypto account nonce []
  | cons {nonce hold holds} : hold.sender = account → hold.nonce = nonce → hold.verify crypto = true →
      Consecutive crypto account (nonce + 1) holds → Consecutive crypto account nonce (hold :: holds)

def cost (holds : List Hold) : Nat := (holds.map fun h => h.amount.toNat).sum

theorem lockOk {e : Escrow} {hold : Hold} : (e.call crypto (.lock hold)).1 = .returned (.ok ()) ↔ Admits crypto e hold := by
  rcases lockCases crypto e hold with ⟨refused,err,failed,_⟩ | ⟨admitted,ok,_⟩
  · simp [Escrow.call, failed, refused]
  · simp [Escrow.call, ok, admitted]

/- What is left after a hold is locked. -/
theorem lockedAfter {e : Escrow} {hold : Hold} (admitted : Admits crypto e hold) :
    amountAt (e.call crypto (.lock hold)).2.nonces hold.sender = amountAt e.nonces hold.sender + 1 ∧
    ((e.call crypto (.lock hold)).2.balance hold.sender).toNat + hold.amount.toNat = (e.balance hold.sender).toNat ∧
    ∀ matchRef : Hash, (e.call crypto (.lock hold)).2.held[matchRef]? = none ↔ matchRef ≠ hold.matchRef ∧ e.held[matchRef]? = none := by
  rcases lockCases crypto e hold with ⟨refused,_⟩ | ⟨_,_,after⟩
  · exact absurd admitted refused
  · have enough : hold.amount.toNat ≤ (e.balance hold.sender).toNat := admitted.covered
    simp only [Escrow.call, after]
    refine ⟨by rw [amountInsert, if_pos rfl],?_,?_⟩
    · rw [Escrow.balance, amountInsert, if_pos rfl, UInt64.toNat_sub_of_le _ _ admitted.covered]
      omega
    · intro matchRef
      rw [lookupInsert]
      by_cases same : matchRef = hold.matchRef <;> simp [same]

/- Signed and covered holds with the right nonces lock exactly if no reference is open or comes twice. -/
theorem consecutiveLock {account : Account} {nonce : UInt64} {holds : List Hold} (consecutive : Consecutive crypto account nonce holds)
    {e : Escrow} (right : nonce = amountAt e.nonces account) (covered : cost holds ≤ (e.balance account).toNat) :
    AllLock crypto e holds ↔ (holds.map Hold.matchRef).Nodup ∧ ∀ h ∈ holds, e.held[h.matchRef]? = none := by
  induction consecutive generalizing e with
  | nil => simp [AllLock, Machine.along]
  | @cons nonce hold holds sender number signed _ ih =>
    subst sender
    have split : cost (hold :: holds) = hold.amount.toNat + cost holds := by simp [cost]
    have admits : Admits crypto e hold ↔ e.held[hold.matchRef]? = none := by
      constructor
      · exact fun admitted => admitted.fresh
      · intro fresh
        have enough : hold.amount.toNat ≤ (e.balance hold.sender).toNat := by omega
        exact ⟨signed,number.trans right,fresh,enough⟩
    rw [AllLock, List.map_cons, Machine.along, lockOk, ← AllLock, List.map_cons, List.nodup_cons]
    constructor
    · rintro ⟨admitted,later⟩
      obtain ⟨nonces,left,held⟩ := lockedAfter admitted
      obtain ⟨distinct,fresh⟩ := (ih (by rw [nonces, right]) (by omega)).mp later
      refine ⟨⟨?_,distinct⟩,?_⟩
      · intro again
        obtain ⟨other,mem,same⟩ := List.mem_map.mp again
        exact ((held _).mp (fresh other mem)).1 same
      · intro h mem
        rcases List.mem_cons.mp mem with rfl | mem
        · exact admitted.fresh
        · exact ((held _).mp (fresh h mem)).2
    · rintro ⟨⟨absent,distinct⟩,fresh⟩
      have admitted := admits.mpr (fresh hold List.mem_cons_self)
      obtain ⟨nonces,left,held⟩ := lockedAfter admitted
      refine ⟨admitted,(ih (by rw [nonces, right]) (by omega)).mpr ⟨distinct,?_⟩⟩
      intro h mem
      exact (held _).mpr ⟨fun same => absent (same ▸ List.mem_map_of_mem mem),fresh h (List.mem_cons_of_mem _ mem)⟩

end Locking

section Holds
variable {crypto : Crypto} {key : SigningKey}

/- What the key signs, its account's public key accepts. -/
def Genuine (crypto : Crypto) (key : SigningKey) : Prop := ∀ raw, crypto.verify key.account raw (key.sign raw) = true

theorem convenedHolds (genuine : Genuine crypto key) (id : String) (expiresAt : UnixSeconds) (rest : List Hold)
    (assignments : List RoleAssignment) (nonce : UInt64)
    (tail : Consecutive crypto key.account (nonce + .ofNat assignments.length) rest) :
    Consecutive crypto key.account nonce (holdsForConvened crypto id assignments key nonce expiresAt ++ rest) := by
  have shifted : ∀ (assignments : List RoleAssignment) (skip : Nat),
      Consecutive crypto key.account (nonce + .ofNat (skip + assignments.length)) rest →
      Consecutive crypto key.account (nonce + .ofNat skip) ((assignments.zipIdx skip).map (fun entry =>
        signHold key entry.1.provider entry.1.price (roleMatchRef crypto id entry.1) (nonce + .ofNat entry.2) expiresAt) ++ rest) := by
    intro assignments
    induction assignments with
    | nil => exact fun skip tail => tail
    | cons a assignments ih =>
      intro skip tail
      refine .cons rfl rfl (genuine _) ?_
      have next : nonce + UInt64.ofNat skip + 1 = nonce + UInt64.ofNat (skip + 1) := by
        rw [UInt64.add_assoc, ← ofNatSucc]
      rw [next]
      exact ih (skip + 1) (by rwa [List.length_cons, ← Nat.add_assoc, Nat.add_right_comm] at tail)
  have all := shifted assignments 0 (by rwa [Nat.zero_add])
  simpa [holdsForConvened] using all

theorem holdsConsecutive (genuine : Genuine crypto key) (runs : List Convened) (nonce : UInt64) :
    Consecutive crypto key.account nonce (holdsOf crypto key nonce runs) := by
  induction runs generalizing nonce with
  | nil => exact .nil
  | cons run rest ih => exact convenedHolds genuine _ _ _ _ _ (ih _)

theorem convenedRefs (id : String) (assignments : List RoleAssignment) (nonce : UInt64) (expiresAt : UnixSeconds) :
    (holdsForConvened crypto id assignments key nonce expiresAt).map Hold.matchRef = assignments.map (roleMatchRef crypto id) := by
  rw [holdsForConvened, List.map_map]
  conv_rhs => rw [← List.zipIdx_map_fst 0 assignments, List.map_map]
  rfl

theorem convenedCost (id : String) (assignments : List RoleAssignment) (nonce : UInt64) (expiresAt : UnixSeconds) :
    cost (holdsForConvened crypto id assignments key nonce expiresAt) = (assignments.map fun a => a.price.toNat).sum := by
  rw [cost, holdsForConvened, List.map_map]
  conv_rhs => rw [← List.zipIdx_map_fst 0 assignments, List.map_map]
  rfl

theorem holdsRefs (runs : List Convened) (nonce : UInt64) :
    (holdsOf crypto key nonce runs).map Hold.matchRef = runs.flatMap (refsOf crypto) := by
  induction runs generalizing nonce with
  | nil => rfl
  | cons run rest ih => rw [holdsOf, List.map_append, convenedRefs, ih, List.flatMap_cons, refsOf]

theorem holdsCost (runs : List Convened) (nonce : UInt64) :
    cost (holdsOf crypto key nonce runs) = (runs.map fun run => (run.assignments.map fun a => a.price.toNat).sum).sum := by
  induction runs generalizing nonce with
  | nil => rfl
  | cons run rest ih =>
    rw [List.map_cons, List.sum_cons, ← ih (nonce + .ofNat run.assignments.length),
      ← @convenedCost crypto key run.spec.id run.assignments nonce run.expiresAt]
    simp [holdsOf, cost]

end Holds

/- The pipeline id is the only field without a fixed width. -/
theorem roleMatchInjective {id id' : String} {a b : RoleAssignment} (same : roleMatchPreimage id a = roleMatchPreimage id' b) :
    id = id' ∧ a.provider = b.provider ∧ a.units = b.units ∧ a.price = b.price := by
  have lengths := congrArg List.length same
  simp only [roleMatchPreimage, Preimage.finish, Preimage.bufU64, Preimage.bufFixed, Preimage.varBytes, Preimage.bufNew,
    List.append_assoc] at same
  have texts : (asBytes id).length = (asBytes id').length := by
    simpa [roleMatchPreimage, Preimage.finish, Preimage.varBytes, u32LE, u64LE, leLength] using lengths
  obtain ⟨_,rest⟩ := List.append_inj (List.append_cancel_left same) (by simp [u32LE, leLength])
  obtain ⟨ids,rest⟩ := List.append_inj rest texts
  obtain ⟨providers,rest⟩ := arrayDelimits 32 trivial trivial rest
  obtain ⟨units,prices⟩ := u64Delimits trivial trivial rest
  exact ⟨asBytesInjective ids,providers,units,u64Delimits.injective trivial trivial prices⟩

theorem convenedProviders {crypto : Crypto} {run : Convened} (succeeded : run.Succeeded crypto) :
    (run.assignments.map RoleAssignment.provider).Nodup := by
  have ok := succeeded
  rw [Convened.Succeeded, PipelineSpec.conveneRoles, PipelineSpec.conveneValid] at ok
  split at ok
  · cases ok
  · exact (fillAssigns ok).distinct

/- The same pipeline is convened twice over the same offers, and both runs are to be
locked. The stand-in hash keeps the end of the preimage. -/
def endOfText : Crypto := ⟨fun _ _ _ => true,fun raw => .ofFn fun i => raw.getD (raw.length - 32 + i.val) 0⟩
def buyer : SigningKey := ⟨.replicate 32 9,fun _ => .replicate 64 0⟩
def buyerFunds : BTreeMap Account Amount := (∅ : BTreeMap Account Amount).insert buyer.account 1000
def reviewRun : Convened :=
  ⟨⟨"audit",[⟨.securityReview,1,"review",none⟩],.lowestFloor⟩,[reviewer],100,fun _ => .lowestFloor,.default,
    [⟨.securityReview,reviewer.holderPubkey,1,10⟩],500⟩

end CadsTunnel.Pipeline
