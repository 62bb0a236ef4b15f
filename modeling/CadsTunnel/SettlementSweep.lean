import CadsTunnel.SettlementEscrow

/-! The reconciliation sweep. It goes over the references that were expired when it
began, and under a bounded supply every one of these refunds succeeds, so it closes
exactly the expired holds and returns what they hold to their consumers. -/
namespace CadsTunnel.Settlement
open Words OrderedMap

namespace Escrow

def expiredEntries (e : Escrow) (now : UInt64) : List (Hash × HeldRecord) :=
  e.held.toList.filter (fun entry => decide (entry.2.expiresAt ≤ now))

/- What the holds of a list return to one account. -/
def returned (account : Account) (entries : List (Hash × HeldRecord)) : Nat :=
  (entries.map fun entry => if entry.2.sender = account then entry.2.amount.toNat else 0).sum

/- The open holds that a sweep at `now` has to close, each listed once. -/
structure Closable (e : Escrow) (now : UInt64) (entries : List (Hash × HeldRecord)) : Prop where
  opened : ∀ entry ∈ entries, e.held[entry.1]? = some entry.2
  expired : ∀ entry ∈ entries, entry.2.expiresAt ≤ now
  once : (entries.map Prod.fst).Nodup

/- Everything that sweeping these holds changes. -/
structure Swept (e : Escrow) (entries : List (Hash × HeldRecord)) (e' : Escrow) : Prop where
  held : ∀ matchRef : Hash, e'.held[matchRef]? = if matchRef ∈ entries.map Prod.fst then none else e.held[matchRef]?
  credited : ∀ account, (e'.balance account).toNat = (e.balance account).toNat + returned account entries
  others : ∀ account : Account, (∀ entry ∈ entries, entry.2.sender ≠ account) → e'.balances[account]? = e.balances[account]?
  nonces : e'.nonces = e.nonces

section Refunds
variable {e : Escrow} {now : UInt64}

theorem refundOpen {matchRef : Hash} {rec : HeldRecord} (opened : e.held[matchRef]? = some rec) (expired : rec.expiresAt ≤ now)
    (bounded : e.value < 2 ^ 64) : (e.refund matchRef now).1 = .ok () ∧ Closes e matchRef rec rec.sender (e.refund matchRef now).2 := by
  have step : e.payOut matchRef rec.sender rec.amount = e.refund matchRef now := by
    simp [refund, opened, UInt64.not_lt.mpr expired]
  rcases payOutCases opened step with ⟨_,full,_⟩ | done
  · omega
  · exact done

theorem closedBalance {e' : Escrow} {matchRef : Hash} {rec : HeldRecord} {account : Account} (closed : Closes e matchRef rec account e')
    (other : Account) : (e'.balance other).toNat =
      (e.balance other).toNat + if account = other then rec.amount.toNat else 0 := by
  obtain ⟨credited,exact,balances⟩ := closed.balances
  simp only [balance] at exact ⊢
  rw [balances, amountInsert]
  by_cases same : other = account
  · subst same
    rw [if_pos rfl, if_pos rfl, exact]
  · rw [if_neg same, if_neg (Ne.symm same), Nat.add_zero]

theorem closableNext {e' : Escrow} {first : Hash × HeldRecord} {rest : List (Hash × HeldRecord)} {account : Account}
    (closable : Closable e now (first :: rest)) (closed : Closes e first.1 first.2 account e') : Closable e' now rest := by
  obtain ⟨fresh,once⟩ := List.nodup_cons.mp (List.map_cons ▸ closable.once)
  refine ⟨?_,fun entry mem => closable.expired entry (List.mem_cons_of_mem _ mem),once⟩
  intro entry mem
  have different : entry.1 ≠ first.1 := fun same => fresh (same ▸ List.mem_map_of_mem mem)
  rw [closed.held, lookupErase, if_neg different]
  exact closable.opened entry (List.mem_cons_of_mem _ mem)

theorem sweptNext {e' e'' : Escrow} {first : Hash × HeldRecord} {rest : List (Hash × HeldRecord)}
    (closed : Closes e first.1 first.2 first.2.sender e') (swept : Swept e' rest e'') : Swept e (first :: rest) e'' := by
  refine ⟨?_,?_,?_,swept.nonces.trans closed.nonces⟩
  · intro matchRef
    rw [swept.held, closed.held, lookupErase]
    by_cases same : matchRef = first.1
    · have mem : matchRef ∈ (first :: rest).map Prod.fst := by rw [List.map_cons, same]; exact List.mem_cons_self
      rw [if_pos same, ite_self, if_pos mem]
    · rw [if_neg same]
      exact if_congr (by rw [List.map_cons, List.mem_cons, or_iff_right same]) rfl rfl
  · intro account
    have more : returned account (first :: rest) =
        (if first.2.sender = account then first.2.amount.toNat else 0) + returned account rest := by
      simp [returned]
    rw [swept.credited, closedBalance closed, more, Nat.add_assoc]
  · intro account others
    obtain ⟨credited,_,balances⟩ := closed.balances
    rw [swept.others account fun entry mem => others entry (List.mem_cons_of_mem _ mem), balances, lookupInsert,
      if_neg (Ne.symm (others first List.mem_cons_self))]

/- The sweep of closable holds closes all of them. -/
theorem sweepCloses (entries : List (Hash × HeldRecord)) (closable : Closable e now entries) (bounded : e.value < 2 ^ 64) :
    (sweep now (entries.map Prod.fst) e).1 = entries.map Prod.fst ∧ Swept e entries (sweep now (entries.map Prod.fst) e).2 := by
  induction entries generalizing e with
  | nil => exact ⟨rfl,by simp [sweep],fun _ => by simp [returned, sweep],fun _ _ => rfl,rfl⟩
  | cons first rest ih =>
    obtain ⟨ok,closed⟩ := refundOpen (closable.opened first List.mem_cons_self) (closable.expired first List.mem_cons_self) bounded
    obtain ⟨refs,swept⟩ := ih (closableNext closable closed) (by rw [closedValue closed]; exact bounded)
    have step : sweep now ((first :: rest).map Prod.fst) e =
        (first.1 :: (sweep now (rest.map Prod.fst) (e.refund first.1 now).2).1,(sweep now (rest.map Prod.fst) (e.refund first.1 now).2).2) := by
      rw [List.map_cons, sweep]
      split
      case h_1 after => rw [after]
      case h_2 failed => rw [failed] at ok; cases ok
    rw [step, refs]
    exact ⟨rfl,sweptNext closed swept⟩

theorem expiredClosable (e : Escrow) (now : UInt64) : Closable e now (e.expiredEntries now) := by
  refine ⟨?_,?_,?_⟩
  · intro entry mem
    exact Std.ExtTreeMap.mem_toList_iff_getElem?_eq_some.mp (List.mem_filter.mp mem).1
  · intro entry mem
    simpa using (List.mem_filter.mp mem).2
  · exact (keysNodup e.held).sublist (List.filter_sublist.map Prod.fst)

theorem expiredMem {matchRef : Hash} : matchRef ∈ e.expiredHolds now ↔
    ∃ rec, e.held[matchRef]? = some rec ∧ rec.expiresAt ≤ now := by
  simp [expiredHolds, Std.ExtTreeMap.mem_toList_iff_getElem?_eq_some]

theorem expiredAscending (e : Escrow) (now : UInt64) : (e.expiredHolds now).Pairwise (fun a b => compare a b = .lt) := by
  refine List.Pairwise.map Prod.fst (fun _ _ => id) ?_
  exact Std.ExtTreeMap.ordered_keys_toList.filter _

end Refunds

/- A sweep of a reachable escrow with a bounded supply closes exactly the expired holds. -/
theorem sweepClosesExpired (crypto : Crypto) (genesis : BTreeMap Account Amount) (bounded : supply genesis ≤ 2 ^ 64 - 1)
    (ops : List Op) (now : UInt64) :
    let e := run crypto genesis ops
    let refunded := (e.refundExpired now).1
    let e' := (e.refundExpired now).2
    (∀ matchRef, matchRef ∈ refunded ↔ ∃ rec, e.held[matchRef]? = some rec ∧ rec.expiresAt ≤ now) ∧
    refunded.Pairwise (fun a b => compare a b = .lt) ∧
    (∀ account, (e'.balance account).toNat = (e.balance account).toNat + returned account (e.expiredEntries now)) ∧
    (∀ matchRef : Hash, e'.held[matchRef]? = if matchRef ∈ refunded then none else e.held[matchRef]?) ∧
    (∀ account : Account, (∀ entry ∈ e.expiredEntries now, entry.2.sender ≠ account) →
      e'.balances[account]? = e.balances[account]?) ∧
    e'.nonces = e.nonces ∧ (e'.refundExpired now).1 = [] := by
  intro e refunded e'
  have within : e.value < 2 ^ 64 := by
    have kept : e.value = supply genesis := runValue crypto genesis ops
    omega
  obtain ⟨refs,swept⟩ := sweepCloses _ (expiredClosable e now) within
  have all : refunded = e.expiredHolds now := refs
  have gone : e'.expiredHolds now = [] := by
    refine List.eq_nil_iff_forall_not_mem.mpr ?_
    intro matchRef left
    obtain ⟨rec,opened,expired⟩ := expiredMem.mp left
    rw [show e'.held[matchRef]? = _ from swept.held matchRef] at opened
    split at opened <;> try contradiction
    rename_i kept
    exact kept (expiredMem.mpr ⟨rec,opened,expired⟩)
  refine ⟨?_,?_,swept.credited,?_,swept.others,swept.nonces,?_⟩
  · intro matchRef
    rw [all]
    exact expiredMem
  · rw [all]
    exact expiredAscending e now
  · rw [all]
    exact swept.held
  · rw [refundExpired, gone]
    rfl

/- The hold of the one match is past its deadline and goes back to its consumer. -/
theorem jobSwept : ((run genuine consumerFunds [.lock job]).refundExpired 100).1 = [job.matchRef] ∧
    (((run genuine consumerFunds [.lock job]).refundExpired 100).2.balance job.sender).toNat = 4 + 5 := by
  have credited := (sweepClosesExpired genuine consumerFunds (by decide +kernel) [.lock job] 100).2.2.1 job.sender
  have before : ((run genuine consumerFunds [.lock job]).balance job.sender).toNat = 4 := by decide +kernel
  have back : returned job.sender ((run genuine consumerFunds [.lock job]).expiredEntries 100) = 5 := by decide +kernel
  rw [before, back] at credited
  exact ⟨by decide +kernel,credited⟩

end Escrow
end CadsTunnel.Settlement
