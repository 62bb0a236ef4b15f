import CadsTunnel.Machine
import CadsTunnel.OrderedMap
import CadsTunnel.SettlementObjects

/-! The in-memory escrow: a lock moves a consumer's funds out of its balance, a
co-signed receipt releases them to the provider, and a passed deadline returns
them. Available balances and open holds together are constant over every run. -/
namespace CadsTunnel.Settlement
open Words OrderedMap
open ChannelObjects (UsageReceipt)

inductive EscrowError where
  | badSignature
  | overdraft (sender : Account) (balance amount : Amount)
  | badNonce (sender : Account) (expected got : UInt64)
  | duplicateHold (matchRef : Hash)
  | unknownHold (matchRef : Hash)
  | receiptMismatch
  | notYetExpired (expiresAt now : UInt64)
  | balanceOverflow (account : Account) (balance amount : Amount)
  deriving DecidableEq, Repr

structure HeldRecord where
  sender : Account
  recipient : Account
  amount : Amount
  expiresAt : UInt64
  deriving DecidableEq, Repr

structure Escrow where
  balances : BTreeMap Account Amount
  nonces : BTreeMap Account UInt64
  held : BTreeMap Hash HeldRecord

namespace Escrow

def new (genesis : BTreeMap Account Amount) : Escrow := ⟨genesis,∅,∅⟩

def balance (e : Escrow) (account : Account) : Amount := amountAt e.balances account

def lock (crypto : Crypto) (e : Escrow) (hold : Hold) : Except EscrowError Unit × Escrow :=
  if !hold.verify crypto then (.error .badSignature,e)
  else
    let expected := amountAt e.nonces hold.sender
    if hold.nonce ≠ expected then (.error (.badNonce hold.sender expected hold.nonce),e)
    else if hold.matchRef ∈ e.held then (.error (.duplicateHold hold.matchRef),e)
    else
      let balance := e.balance hold.sender
      if balance < hold.amount then (.error (.overdraft hold.sender balance hold.amount),e)
      else
        -- The nonce counter wraps as in the release build.
        (.ok (),⟨e.balances.insert hold.sender (balance - hold.amount),e.nonces.insert hold.sender (expected + 1),
          e.held.insert hold.matchRef ⟨hold.sender,hold.recipient,hold.amount,hold.expiresAt⟩⟩)

/- The common end of `release` and `refund`: the credit is computed before anything
is written, so an overflow leaves the hold open. -/
def payOut (e : Escrow) (matchRef : Hash) (account : Account) (amount : Amount) : Except EscrowError Unit × Escrow :=
  match checkedAdd (e.balance account) amount with
  | none => (.error (.balanceOverflow account (e.balance account) amount),e)
  | some credited => (.ok (),⟨e.balances.insert account credited,e.nonces,e.held.erase matchRef⟩)

def release (crypto : Crypto) (e : Escrow) (receipt : UsageReceipt) : Except EscrowError Unit × Escrow :=
  match e.held[receipt.matchRef]? with
  | none => (.error (.unknownHold receipt.matchRef),e)
  | some rec =>
    if !receipt.isValid crypto || receipt.provider ≠ rec.recipient || receipt.consumer ≠ rec.sender then
      (.error .receiptMismatch,e)
    else e.payOut receipt.matchRef rec.recipient rec.amount

def refund (e : Escrow) (matchRef : Hash) (now : UInt64) : Except EscrowError Unit × Escrow :=
  match e.held[matchRef]? with
  | none => (.error (.unknownHold matchRef),e)
  | some rec =>
    if now < rec.expiresAt then (.error (.notYetExpired rec.expiresAt now),e)
    else e.payOut matchRef rec.sender rec.amount

def expiredHolds (e : Escrow) (now : UInt64) : List Hash :=
  (e.held.toList.filter (fun entry => decide (entry.2.expiresAt ≤ now))).map Prod.fst

/- The filtering loop of the sweep: a reference stays in the result when its refund succeeded. -/
def sweep (now : UInt64) : List Hash → Escrow → List Hash × Escrow
  | [], e => ([],e)
  | matchRef :: rest, e =>
    match e.refund matchRef now with
    | (.ok _,e) => let (refunded,e) := sweep now rest e; (matchRef :: refunded,e)
    | (.error _,e) => sweep now rest e

def refundExpired (e : Escrow) (now : UInt64) : List Hash × Escrow := sweep now (e.expiredHolds now) e

inductive Op where
  | lock (hold : Hold)
  | release (receipt : UsageReceipt)
  | refund (matchRef : Hash) (now : UInt64)
  | refundExpired (now : UInt64)

inductive Reply where
  | returned (result : Except EscrowError Unit)
  | swept (refunded : List Hash)
  deriving DecidableEq

def call (crypto : Crypto) (e : Escrow) : Op → Reply × Escrow
  | .lock hold => let (r,e) := e.lock crypto hold; (.returned r,e)
  | .release receipt => let (r,e) := e.release crypto receipt; (.returned r,e)
  | .refund matchRef now => let (r,e) := e.refund matchRef now; (.returned r,e)
  | .refundExpired now => let (refunded,e) := e.refundExpired now; (.swept refunded,e)

def run (crypto : Crypto) (genesis : BTreeMap Account Amount) (ops : List Op) : Escrow :=
  Machine.run (call crypto) (new genesis) ops

def value (e : Escrow) : Nat := supply e.balances + total (fun rec => rec.amount.toNat) e.held

/- Everything that closing the hold `rec` in favour of `account` requires and changes. -/
structure Closes (e : Escrow) (matchRef : Hash) (rec : HeldRecord) (account : Account) (e' : Escrow) : Prop where
  opened : e.held[matchRef]? = some rec
  balances : ∃ credited : Amount, credited.toNat = (e.balance account).toNat + rec.amount.toNat ∧
    e'.balances = e.balances.insert account credited
  nonces : e'.nonces = e.nonces
  held : e'.held = e.held.erase matchRef

/- A refused operation changes nothing, and an overflow is only reported by an
escrow that holds more than the largest amount. -/
structure Refuses (e : Escrow) (err : EscrowError) (e' : Escrow) : Prop where
  same : e' = e
  overflow : ∀ a b c, err = .balanceOverflow a b c → 2 ^ 64 ≤ e.value

/- The four checks a hold has to pass. -/
structure Admits (crypto : Crypto) (e : Escrow) (hold : Hold) : Prop where
  signed : hold.verify crypto = true
  nonce : hold.nonce = amountAt e.nonces hold.sender
  fresh : e.held[hold.matchRef]? = none
  covered : hold.amount ≤ e.balance hold.sender

theorem refusesPlain {e : Escrow} {err : EscrowError} (plain : ∀ a b c, err ≠ .balanceOverflow a b c) : Refuses e err e :=
  ⟨rfl,fun a b c same => absurd same (plain a b c)⟩

theorem refusesResult {e : Escrow} {result : Except EscrowError Unit × Escrow} {err : EscrowError}
    (failed : result.1 = .error err)
    (possible : (∃ other, result.1 = .error other ∧ Refuses e other result.2) ∨ result.1 = .ok ()) :
    Refuses e err result.2 := by
  rcases possible with ⟨other,same,refused⟩ | ok
  · cases failed.symm.trans same
    exact refused
  · cases failed.symm.trans ok

theorem lockCases (crypto : Crypto) (e : Escrow) (hold : Hold) :
    (¬ Admits crypto e hold ∧ ∃ err, (e.lock crypto hold).1 = .error err ∧ Refuses e err (e.lock crypto hold).2) ∨
    (Admits crypto e hold ∧ (e.lock crypto hold).1 = .ok () ∧
      (e.lock crypto hold).2 = ⟨e.balances.insert hold.sender (e.balance hold.sender - hold.amount),
        e.nonces.insert hold.sender (amountAt e.nonces hold.sender + 1),
        e.held.insert hold.matchRef ⟨hold.sender,hold.recipient,hold.amount,hold.expiresAt⟩⟩) := by
  generalize h : e.lock crypto hold = result
  unfold lock at h
  split at h
  · rename_i unsigned
    cases h
    exact .inl ⟨fun ok => by simp [ok.signed] at unsigned,_,rfl,refusesPlain (by simp)⟩
  · rename_i signed
    dsimp only at h
    split at h
    · rename_i other
      cases h
      exact .inl ⟨fun ok => other ok.nonce,_,rfl,refusesPlain (by simp)⟩
    · rename_i nonce
      split at h
      · rename_i opened
        cases h
        refine .inl ⟨fun ok => ?_,_,rfl,refusesPlain (by simp)⟩
        simp [← Std.ExtTreeMap.isSome_getElem?_iff_mem, ok.fresh] at opened
      · rename_i fresh
        split at h
        · rename_i short
          cases h
          exact .inl ⟨fun ok => UInt64.not_lt.mpr ok.covered short,_,rfl,refusesPlain (by simp)⟩
        · rename_i covered
          cases h
          refine .inr ⟨⟨by simpa using signed,not_not.mp nonce,?_,UInt64.not_lt.mp covered⟩,rfl,rfl⟩
          simpa using fresh

theorem openedValue {e : Escrow} {matchRef : Hash} {rec : HeldRecord} (opened : e.held[matchRef]? = some rec) :
    e.value = supply e.balances + rec.amount.toNat + total (fun rec => rec.amount.toNat) (e.held.erase matchRef) := by
  rw [value, totalErase (fun rec => rec.amount.toNat) opened]
  omega

theorem payOutCases {e : Escrow} {matchRef : Hash} {rec : HeldRecord} {account : Account}
    (opened : e.held[matchRef]? = some rec) {result : Except EscrowError Unit × Escrow}
    (h : e.payOut matchRef account rec.amount = result) :
    (result.1 = .error (.balanceOverflow account (e.balance account) rec.amount) ∧ 2 ^ 64 ≤ e.value ∧ result.2 = e) ∨
    (result.1 = .ok () ∧ Closes e matchRef rec account result.2) := by
  unfold payOut at h
  split at h
  · rename_i overflow
    cases h
    refine .inl ⟨rfl,?_,rfl⟩
    have full := checkedAddNone.mp overflow
    have part := amountLeSupply e.balances account
    have split := openedValue opened
    simp only [balance] at full
    omega
  · rename_i credited found
    cases h
    exact .inr ⟨rfl,opened,⟨credited,checkedAddSome found,rfl⟩,rfl,rfl⟩

theorem releaseCases (crypto : Crypto) (e : Escrow) (receipt : UsageReceipt) :
    (∃ err, (e.release crypto receipt).1 = .error err ∧ Refuses e err (e.release crypto receipt).2) ∨
    ((e.release crypto receipt).1 = .ok () ∧ ∃ rec,
      Closes e receipt.matchRef rec receipt.provider (e.release crypto receipt).2 ∧ receipt.isValid crypto = true ∧
      receipt.provider = rec.recipient ∧ receipt.consumer = rec.sender) := by
  generalize h : e.release crypto receipt = result
  unfold release at h
  split at h
  · cases h
    exact .inl ⟨_,rfl,refusesPlain (by simp)⟩
  · rename_i rec opened
    split at h
    · cases h
      exact .inl ⟨_,rfl,refusesPlain (by simp)⟩
    · rename_i matching
      simp only [ne_eq, Bool.or_eq_true, Bool.not_eq_eq_eq_not, Bool.not_true, decide_eq_true_eq, not_or, not_not,
        Bool.not_eq_false] at matching
      obtain ⟨⟨signed,provider⟩,consumer⟩ := matching
      rw [← provider] at h
      rcases payOutCases opened h with ⟨failed,full,same⟩ | ⟨ok,closed⟩
      · exact .inl ⟨_,failed,same,fun _ _ _ _ => full⟩
      · exact .inr ⟨ok,rec,closed,signed,provider,consumer⟩

theorem refundCases (e : Escrow) (matchRef : Hash) (now : UInt64) :
    (∃ err, (e.refund matchRef now).1 = .error err ∧ Refuses e err (e.refund matchRef now).2) ∨
    ((e.refund matchRef now).1 = .ok () ∧ ∃ rec, rec.expiresAt ≤ now ∧
      Closes e matchRef rec rec.sender (e.refund matchRef now).2) := by
  generalize h : e.refund matchRef now = result
  unfold refund at h
  split at h
  · cases h
    exact .inl ⟨_,rfl,refusesPlain (by simp)⟩
  · rename_i rec opened
    split at h
    · cases h
      exact .inl ⟨_,rfl,refusesPlain (by simp)⟩
    · rename_i expired
      rcases payOutCases opened h with ⟨failed,full,same⟩ | ⟨ok,closed⟩
      · exact .inl ⟨_,failed,same,fun _ _ _ _ => full⟩
      · exact .inr ⟨ok,rec,UInt64.not_lt.mp expired,closed⟩

theorem closedValue {e e' : Escrow} {matchRef : Hash} {rec : HeldRecord} {account : Account}
    (closed : Closes e matchRef rec account e') : e'.value = e.value := by
  obtain ⟨credited,exact,balances⟩ := closed.balances
  have before := openedValue closed.opened
  have credit := supplyInsert e.balances account credited
  simp only [balance] at exact
  rw [value, balances, closed.held]
  omega

theorem lockValue (crypto : Crypto) (e : Escrow) (hold : Hold) : (e.lock crypto hold).2.value = e.value := by
  rcases lockCases crypto e hold with ⟨_,_,_,refused⟩ | ⟨admitted,_,after⟩
  · rw [refused.same]
  · rw [after]
    have debit := supplyInsert e.balances hold.sender (e.balance hold.sender - hold.amount)
    have exact := UInt64.toNat_sub_of_le _ _ admitted.covered
    have enough : hold.amount.toNat ≤ (e.balance hold.sender).toNat := admitted.covered
    simp only [value, totalInsertFresh (fun rec : HeldRecord => rec.amount.toNat) admitted.fresh]
    simp only [balance] at exact enough debit ⊢
    omega

theorem releaseValue (crypto : Crypto) (e : Escrow) (receipt : UsageReceipt) :
    (e.release crypto receipt).2.value = e.value := by
  rcases releaseCases crypto e receipt with ⟨_,_,refused⟩ | ⟨_,_,closed,_⟩
  · rw [refused.same]
  · exact closedValue closed

theorem refundValue (e : Escrow) (matchRef : Hash) (now : UInt64) : (e.refund matchRef now).2.value = e.value := by
  rcases refundCases e matchRef now with ⟨_,_,refused⟩ | ⟨_,_,_,closed⟩
  · rw [refused.same]
  · exact closedValue closed

/- What every single refund preserves, the sweep preserves. -/
theorem sweepInvariant (inv : Escrow → Prop) {now : UInt64}
    (preserved : ∀ e matchRef, inv e → inv (e.refund matchRef now).2) (refs : List Hash) {e : Escrow}
    (start : inv e) : inv (sweep now refs e).2 := by
  induction refs generalizing e with
  | nil => exact start
  | cons matchRef rest ih =>
    have next := preserved e matchRef start
    unfold sweep
    split
    · rename_i step
      rw [step] at next
      exact ih next
    · rename_i step
      rw [step] at next
      exact ih next

theorem callValue (crypto : Crypto) (e : Escrow) (op : Op) : (e.call crypto op).2.value = e.value := by
  cases op with
  | lock hold => exact lockValue crypto e hold
  | release receipt => exact releaseValue crypto e receipt
  | refund matchRef now => exact refundValue e matchRef now
  | refundExpired now =>
    exact sweepInvariant (fun m => m.value = e.value)
      (fun m matchRef same => (refundValue m matchRef now).trans same) _ rfl

theorem runValue (crypto : Crypto) (genesis : BTreeMap Account Amount) (ops : List Op) :
    (run crypto genesis ops).value = supply genesis := by
  refine Machine.runInvariant (fun m : Escrow => m.value = supply genesis) ?_ ?_ ops
  · intro e op same
    rw [callValue, same]
  · simp [value, new, totalEmpty]

theorem callRefuses {crypto : Crypto} {e : Escrow} {op : Op} {err : EscrowError}
    (failed : (e.call crypto op).1 = .returned (.error err)) : Refuses e err (e.call crypto op).2 := by
  cases op with
  | lock hold =>
    exact refusesResult (Reply.returned.inj failed) ((lockCases crypto e hold).imp And.right fun admitted => admitted.2.1)
  | release receipt =>
    exact refusesResult (Reply.returned.inj failed) ((releaseCases crypto e receipt).imp_right And.left)
  | refund matchRef now =>
    exact refusesResult (Reply.returned.inj failed) ((refundCases e matchRef now).imp_right And.left)
  | refundExpired now => cases failed

theorem escrowConserves (crypto : Crypto) (genesis : BTreeMap Account Amount) (ops : List Op) :
    let e := run crypto genesis ops
    e.value = supply genesis ∧
    (∀ op err, (e.call crypto op).1 = .returned (.error err) → (e.call crypto op).2 = e) ∧
    (supply genesis ≤ 2 ^ 64 - 1 → ∀ op account balance amount,
      (e.call crypto op).1 ≠ .returned (.error (.balanceOverflow account balance amount))) := by
  intro e
  have kept : e.value = supply genesis := runValue crypto genesis ops
  refine ⟨kept,fun op err failed => (callRefuses failed).same,?_⟩
  intro bounded op account balance amount failed
  have full := (callRefuses failed).overflow account balance amount rfl
  omega

/- A consumer that owns 9 holds 5 of them for one match; the consumer and the provider co-sign the receipt. -/
def job : Hold := ⟨.replicate 32 1,.replicate 32 2,5,.replicate 32 3,0,100,.replicate 64 0⟩
def consumerFunds : BTreeMap Account Amount := (∅ : BTreeMap Account Amount).insert job.sender 9
def delivered : UsageReceipt :=
  ⟨job.recipient,job.sender,.localHardware,"model",7,job.matchRef,50,.replicate 32 4,.replicate 32 5,.replicate 64 0,.replicate 64 0⟩
def genuine : Crypto := ⟨fun _ _ _ => true,fun _ => .replicate 32 0⟩

/- A refund before the deadline is refused and the hold stays open. -/
theorem escrowConservesEarlyRefund :
    let e := run genuine consumerFunds [.lock job]
    (e.call genuine (.refund job.matchRef 10)).1 = .returned (.error (.notYetExpired 100 10)) ∧
    (e.call genuine (.refund job.matchRef 10)).2 = e ∧ e.value = 9 ∧
    (e.call genuine (.refund job.matchRef 200)).1 ≠ .returned (.error (.balanceOverflow job.sender 4 5)) := by
  intro e
  have early : (e.call genuine (.refund job.matchRef 10)).1 = .returned (.error (.notYetExpired 100 10)) := by
    decide +kernel
  have funds : supply consumerFunds = 9 := by decide +kernel
  have conserved := escrowConserves genuine consumerFunds [.lock job]
  exact ⟨early,conserved.2.1 _ _ early,conserved.1.trans funds,conserved.2.2 (by rw [funds]; decide) _ _ _ _⟩

end Escrow
end CadsTunnel.Settlement
