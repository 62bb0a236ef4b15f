import CadsTunnel.SettlementEscrow

/-! Which receipts an escrow pays out over a run. A hold is forgotten when it is
closed and `lock` only asks whether the reference is open now, so the receipt of a
closed match pays again once the same parties lock the same reference. Without
such a lock every receipt pays at most once. -/
namespace CadsTunnel.Settlement
open Words OrderedMap
open ChannelObjects (UsageReceipt)

namespace Escrow

def payouts (crypto : Crypto) (e : Escrow) : Op → List UsageReceipt
  | .release receipt => if (e.release crypto receipt).1 = .ok () then [receipt] else []
  | _ => []

def paid (crypto : Crypto) : Escrow → List Op → List UsageReceipt
  | _, [] => []
  | e, op :: rest => e.payouts crypto op ++ paid crypto (e.call crypto op).2 rest

/- The lock reopens a match for which one of the receipts was already paid out. -/
def Reopens (crypto : Crypto) (e : Escrow) (hold : Hold) (receipts : List UsageReceipt) : Prop :=
  Admits crypto e hold ∧ ∃ receipt ∈ receipts,
    hold.matchRef = receipt.matchRef ∧ hold.sender = receipt.consumer ∧ hold.recipient = receipt.provider

def NeverReopens (crypto : Crypto) (genesis : BTreeMap Account Amount) (ops : List Op) : Prop :=
  ∀ before hold later, ops = before ++ .lock hold :: later →
    ¬ Reopens crypto (run crypto genesis before) hold (paid crypto (new genesis) before)

/- In every state of the run, whichever receipt is presented there. -/
def PaysOnce (crypto : Crypto) (genesis : BTreeMap Account Amount) (ops : List Op) : Prop :=
  ∀ visited, visited <+: ops → ∀ receipt, (paid crypto (new genesis) (visited ++ [.release receipt])).Nodup

theorem paidAppend (crypto : Crypto) (e : Escrow) (first later : List Op) :
    paid crypto e (first ++ later) = paid crypto e first ++ paid crypto (Machine.run (call crypto) e first) later := by
  induction first generalizing e with
  | nil => rfl
  | cons op rest ih =>
    rw [List.cons_append, paid, paid, ih, List.append_assoc]
    rfl

theorem paidNext (crypto : Crypto) (genesis : BTreeMap Account Amount) (ops : List Op) (op : Op) :
    paid crypto (new genesis) (ops ++ [op]) =
      paid crypto (new genesis) ops ++ (run crypto genesis ops).payouts crypto op := by
  rw [paidAppend]
  simp only [paid, List.append_nil]
  rfl

theorem runNext (crypto : Crypto) (genesis : BTreeMap Account Amount) (ops : List Op) (op : Op) :
    run crypto genesis (ops ++ [op]) = ((run crypto genesis ops).call crypto op).2 := Machine.runAppend _ _ _

def Payable (e : Escrow) (receipt : UsageReceipt) : Prop :=
  ∃ rec, e.held[receipt.matchRef]? = some rec ∧ receipt.provider = rec.recipient ∧ receipt.consumer = rec.sender

/- No hold of `e'` is new. -/
def Shrinks (e e' : Escrow) : Prop := ∀ (matchRef : Hash) rec, e'.held[matchRef]? = some rec → e.held[matchRef]? = some rec

theorem shrinksPayable {e e' : Escrow} (fewer : Shrinks e e') {receipt : UsageReceipt} (payable : e'.Payable receipt) :
    e.Payable receipt := by
  obtain ⟨rec,opened,parties⟩ := payable
  exact ⟨rec,fewer _ _ opened,parties⟩

theorem closedShrinks {e e' : Escrow} {matchRef : Hash} {rec : HeldRecord} {account : Account}
    (closed : Closes e matchRef rec account e') : Shrinks e e' := by
  intro other found opened
  rw [closed.held, lookupErase] at opened
  split at opened <;> try contradiction
  exact opened

theorem refundShrinks (e : Escrow) (matchRef : Hash) (now : UInt64) : Shrinks e (e.refund matchRef now).2 := by
  rcases refundCases e matchRef now with ⟨_,_,refused⟩ | ⟨_,_,_,closed⟩
  · rw [refused.same]
    exact fun _ _ opened => opened
  · exact closedShrinks closed

theorem sweepShrinks (e : Escrow) (now : UInt64) (refs : List Hash) : Shrinks e (sweep now refs e).2 :=
  sweepInvariant (Shrinks e) (fun m matchRef fewer other rec opened =>
    fewer other rec (refundShrinks m matchRef now other rec opened)) refs (fun _ _ opened => opened)

/- A receipt that was paid finds no hold it could close. -/
structure Settled (e : Escrow) (receipts : List UsageReceipt) : Prop where
  once : receipts.Nodup
  spent : ∀ receipt ∈ receipts, ¬ e.Payable receipt

theorem settledShrinks {e e' : Escrow} {receipts : List UsageReceipt}
    (settled : Settled e receipts) (fewer : Shrinks e e') : Settled e' receipts :=
  ⟨settled.once,fun receipt mem payable => settled.spent receipt mem (shrinksPayable fewer payable)⟩

theorem settledLock {crypto : Crypto} {e : Escrow} {receipts : List UsageReceipt} {hold : Hold}
    (settled : Settled e receipts) (fresh : ¬ Reopens crypto e hold receipts) :
    Settled (e.lock crypto hold).2 receipts := by
  rcases lockCases crypto e hold with ⟨_,_,_,refused⟩ | ⟨admitted,_,after⟩
  · rw [refused.same]
    exact settled
  · refine ⟨settled.once,?_⟩
    intro receipt mem payable
    obtain ⟨rec,opened,provider,consumer⟩ := payable
    rw [after, lookupInsert] at opened
    split at opened
    · rename_i same
      cases opened
      exact fresh ⟨admitted,receipt,mem,same.symm,consumer.symm,provider.symm⟩
    · exact settled.spent receipt mem ⟨rec,opened,provider,consumer⟩

theorem settledRelease (crypto : Crypto) {e : Escrow} {receipts : List UsageReceipt} (receipt : UsageReceipt)
    (settled : Settled e receipts) :
    Settled (e.release crypto receipt).2 (receipts ++ e.payouts crypto (.release receipt)) := by
  rcases releaseCases crypto e receipt with ⟨_,failed,refused⟩ | ⟨ok,rec,closed,_,provider,consumer⟩
  · rw [refused.same, payouts, failed, if_neg (by simp), List.append_nil]
    exact settled
  · have before := settledShrinks settled (closedShrinks closed)
    have unpaid : receipt ∉ receipts := fun mem => settled.spent receipt mem ⟨rec,closed.opened,provider,consumer⟩
    rw [payouts, if_pos ok]
    refine ⟨?_,?_⟩
    · exact List.nodup_append'.mpr ⟨before.once,List.nodup_singleton _,List.disjoint_singleton.mpr unpaid⟩
    · intro other mem
      rcases List.mem_append.mp mem with old | new
      · exact before.spent other old
      · rw [List.mem_singleton.mp new]
        intro payable
        obtain ⟨_,opened,_⟩ := payable
        rw [closed.held, lookupErase, if_pos rfl] at opened
        contradiction

theorem settledCall {crypto : Crypto} {e : Escrow} {receipts : List UsageReceipt} {op : Op}
    (settled : Settled e receipts) (fresh : ∀ hold, op = .lock hold → ¬ Reopens crypto e hold receipts) :
    Settled (e.call crypto op).2 (receipts ++ e.payouts crypto op) := by
  cases op with
  | lock hold =>
    simp only [payouts, List.append_nil]
    exact settledLock settled (fresh hold rfl)
  | release receipt => exact settledRelease crypto receipt settled
  | refund matchRef now =>
    simp only [payouts, List.append_nil]
    exact settledShrinks settled (refundShrinks e matchRef now)
  | refundExpired now =>
    simp only [payouts, List.append_nil]
    exact settledShrinks settled (sweepShrinks e now _)

theorem reopensEarlier {crypto : Crypto} {genesis : BTreeMap Account Amount} {ops later : List Op}
    (never : NeverReopens crypto genesis (ops ++ later)) : NeverReopens crypto genesis ops := by
  intro before hold rest same
  subst same
  exact never before hold (rest ++ later) (by simp)

theorem settledRun {crypto : Crypto} {genesis : BTreeMap Account Amount} {ops : List Op}
    (never : NeverReopens crypto genesis ops) :
    Settled (run crypto genesis ops) (paid crypto (new genesis) ops) := by
  induction ops using List.reverseRecOn with
  | nil => exact ⟨List.nodup_nil,by simp [paid]⟩
  | append_singleton ops op ih =>
    rw [paidNext, runNext]
    refine settledCall (ih (reopensEarlier never)) ?_
    intro hold same
    subst same
    exact never ops hold [] rfl

theorem payoutsValid {crypto : Crypto} {e : Escrow} {op : Op} {receipt : UsageReceipt}
    (mem : receipt ∈ e.payouts crypto op) : receipt.isValid crypto = true := by
  unfold payouts at mem
  split at mem
  · rename_i presented
    split at mem
    · rename_i ok
      cases List.mem_singleton.mp mem
      rcases releaseCases crypto e receipt with ⟨_,failed,_⟩ | ⟨_,_,_,signed,_⟩
      · cases ok.symm.trans failed
      · exact signed
    · cases mem
  · cases mem

theorem paidValid {crypto : Crypto} {ops : List Op} {receipt : UsageReceipt} {e : Escrow}
    (mem : receipt ∈ paid crypto e ops) : receipt.isValid crypto = true := by
  induction ops generalizing e with
  | nil => cases mem
  | cons op rest ih =>
    rcases List.mem_append.mp mem with first | later
    · exact payoutsValid first
    · exact ih later

theorem releasePayable {crypto : Crypto} {e : Escrow} {receipt : UsageReceipt} (payable : e.Payable receipt)
    (signed : receipt.isValid crypto = true) (bounded : e.value ≤ 2 ^ 64 - 1) :
    (e.release crypto receipt).1 = .ok () := by
  obtain ⟨rec,opened,provider,consumer⟩ := payable
  unfold release
  simp only [opened, signed, provider, consumer, Bool.not_true, ne_eq, not_true_eq_false,
    decide_false, Bool.or_self, Bool.false_eq_true, if_false]
  rcases payOutCases opened rfl with ⟨_,full,_⟩ | ⟨ok,_⟩
  · omega
  · exact ok

theorem receiptPaidOnce (crypto : Crypto) (genesis : BTreeMap Account Amount) (ops : List Op) :
    (NeverReopens crypto genesis ops → PaysOnce crypto genesis ops) ∧
    (supply genesis ≤ 2 ^ 64 - 1 → PaysOnce crypto genesis ops → NeverReopens crypto genesis ops) := by
  constructor
  · intro never visited early receipt
    obtain ⟨later,rfl⟩ := early
    have settled := settledRelease crypto receipt (settledRun (reopensEarlier never))
    rw [paidNext]
    exact settled.once
  · intro bounded pays before hold later same reopened
    obtain ⟨admitted,receipt,mem,reference,sender,recipient⟩ := reopened
    subst same
    -- The state right after the reopening lock is one in which the receipt pays again.
    have pays := pays (before ++ [.lock hold]) ⟨later,by simp⟩ receipt
    have opened : (run crypto genesis (before ++ [.lock hold])).Payable receipt := by
      rcases lockCases crypto (run crypto genesis before) hold with ⟨refused,_⟩ | ⟨_,_,after⟩
      · exact absurd admitted refused
      · refine ⟨⟨hold.sender,hold.recipient,hold.amount,hold.expiresAt⟩,?_,recipient.symm,sender.symm⟩
        rw [runNext, call]
        simp only [after, lookupInsert, reference, if_true]
    have again := releasePayable opened (paidValid mem) (by rw [runValue]; exact bounded)
    have grown : receipt ∈ paid crypto (new genesis) (before ++ [.lock hold]) := by
      rw [paidNext]
      exact List.mem_append_left _ mem
    rw [paidNext, payouts, if_pos again] at pays
    exact (List.nodup_append'.mp pays).2.2 grown (List.mem_singleton_self _)

def firstMatch : List Op := [.lock job,.release delivered]

theorem firstMatchPaysOnce :
    PaysOnce genuine consumerFunds firstMatch ∧ NeverReopens genuine consumerFunds firstMatch := by
  have never : NeverReopens genuine consumerFunds firstMatch := by
    intro before hold later same
    match before with
    | [] => exact fun ⟨_,receipt,mem,_⟩ => by cases mem
    | [_] => simp [firstMatch] at same
    | _ :: _ :: _ => simp [firstMatch] at same
  have pays := (receiptPaidOnce genuine consumerFunds firstMatch).1 never
  exact ⟨pays,(receiptPaidOnce genuine consumerFunds firstMatch).2 (by decide +kernel) pays⟩

/- The consumer locks its remaining 4 under the reference of the closed match, and
the receipt of the first match releases them as well. -/
theorem receiptPaidTwice :
    let ops := firstMatch ++ [.lock { job with amount := 4, nonce := 1 },.release delivered]
    paid genuine (new consumerFunds) ops = [delivered,delivered] ∧
    (run genuine consumerFunds ops).balance delivered.provider = 9 ∧
    ¬ (paid genuine (new consumerFunds) ops).Nodup := by
  have twice : paid genuine (new consumerFunds)
      (firstMatch ++ [.lock { job with amount := 4, nonce := 1 },.release delivered]) = [delivered,delivered] := by
    decide +kernel
  exact ⟨twice,by decide +kernel,by rw [twice]; simp⟩

end Escrow
end CadsTunnel.Settlement
