import CadsTunnel.SettlementSound

/-! Replay protection. Heights are list positions, and each sender's committed
transfers carry the nonces 0, 1, 2 and so on in chain order, so no pair of sender
and nonce is committed twice. Both counters are 64-bit; neither can wrap, because
everything they count is held in memory. -/
namespace CadsTunnel.Settlement
open Words OrderedMap

def sentBy (account : Account) (ts : List Transfer) : List Transfer := ts.filter (fun t => t.sender = account)

namespace Ledger

theorem applyNonce (l : Ledger) (t : Transfer) (account : Account) :
    amountAt (l.apply t).nonces account =
      if account = t.sender then amountAt l.nonces t.sender + 1 else amountAt l.nonces account :=
  amountInsert _ _ _ _

/- Induction along the batch; the sender's counter is the running offset. -/
theorem validatedNonces {crypto : Crypto} {ts : List Transfer} {l l' : Ledger} (ok : l.validateAll crypto ts = .ok l')
    (account : Account) (first : Nat) (counter : amountAt l.nonces account = .ofNat first) :
    (sentBy account ts).map Transfer.nonce = (List.range' first (sentBy account ts).length).map UInt64.ofNat := by
  induction ts generalizing l first with
  | nil => rfl
  | cons t ts ih =>
    obtain ⟨m,step,rest⟩ := Machine.loopCons.mp ok
    obtain ⟨rfl,_,nonce,_⟩ := validApply step
    by_cases mine : t.sender = account
    · have next : amountAt (l.apply t).nonces account = .ofNat (first + 1) := by
        rw [applyNonce, if_pos mine.symm, mine, counter, ofNatSucc]
      have tail := ih rest (first + 1) next
      simp only [sentBy, List.filter_cons, mine, decide_true, if_true, List.map_cons, List.length_cons,
        List.range'_succ] at tail ⊢
      rw [tail, nonce, mine, counter]
    · have kept : amountAt (l.apply t).nonces account = .ofNat first := by
        rw [applyNonce, if_neg (Ne.symm mine), counter]
      have tail := ih rest first kept
      simpa only [sentBy, List.filter_cons, mine, decide_false, Bool.false_eq_true, if_false] using tail

end Ledger

namespace Chain

def committed (blocks : List Block) : List Transfer := blocks.flatMap Block.transfers

theorem auditedTransfers {crypto : Crypto} {blocks : List Block} {a a' : Audit}
    (ok : blocks.foldlM (auditBlock crypto) a = .ok a') :
    a.ledger.validateAll crypto (committed blocks) = .ok a'.ledger := by
  induction blocks generalizing a with
  | nil =>
    cases Machine.loopNil.mp ok
    rfl
  | cons block rest ih =>
    obtain ⟨m,step,later⟩ := Machine.loopCons.mp ok
    exact Machine.loopAppend.mpr ⟨m.ledger,(auditStep.mp step).2.2.2.2.2,ih later⟩

theorem auditedHeights {crypto : Crypto} {blocks : List Block} {a a' : Audit}
    (ok : blocks.foldlM (auditBlock crypto) a = .ok a') {i : Nat} {block : Block} (found : blocks[i]? = some block) :
    block.height = .ofNat (a.index + i) := by
  induction blocks generalizing a i with
  | nil => simp at found
  | cons head rest ih =>
    obtain ⟨m,step,later⟩ := Machine.loopCons.mp ok
    obtain ⟨height,_,_,index,_⟩ := auditStep.mp step
    cases i with
    | zero =>
      cases Option.some.inj found
      exact height
    | succ i =>
      rw [ih later found, index]
      congr 1
      omega

theorem heapBounds (blocks : List Block) : blocks.length ≤ heapBytes blocks ∧ (committed blocks).length ≤ heapBytes blocks := by
  induction blocks with
  | nil => simp [heapBytes, committed]
  | cons block rest ih =>
    simp only [heapBytes, committed, List.map_cons, List.sum_cons, List.length_cons, List.flatMap_cons,
      List.length_append] at ih ⊢
    omega

/- Positions stay below 2^64, so reading a height back as an index is exact. -/
theorem soundHeights {crypto : Crypto} {c : Chain} (sound : Sound crypto c) {i : Nat} {block : Block}
    (found : c.blocks[i]? = some block) : block.height.toNat = i := by
  have height := auditedHeights sound.audited found
  have inside : i < c.blocks.length := (List.getElem?_eq_some_iff.mp found).1
  have bound := (heapBounds c.blocks).1
  have fits := c.fits
  rw [height, Nat.zero_add, UInt64.toNat_ofNat']
  exact Nat.mod_eq_of_lt (by simp only [addressSpace] at fits; omega)

theorem soundHeight {crypto : Crypto} {c : Chain} (sound : Sound crypto c) : c.height.toNat + 1 = c.blocks.length := by
  have positive : 0 < c.blocks.length := List.length_pos_iff.mpr c.nonempty
  have found : c.blocks[c.blocks.length - 1]? = some c.tipBlock := by
    rw [← List.getLast?_eq_getElem?, tipBlock, List.getLast?_eq_getLast_of_ne_nil]
  have height := soundHeights sound found
  rw [Chain.height]
  omega

theorem lookupInRange {crypto : Crypto} {c : Chain} (sound : Sound crypto c) (block : Block) :
    (c.acceptBlock crypto block).1 ≠ .panic .indexOutOfBounds := by
  intro panicked
  simp only [acceptBlock] at panicked
  split at panicked
  · rename_i old
    have tip := soundHeight sound
    have inside : block.height.toNat < c.blocks.length := by
      have known : block.height.toNat ≤ c.height.toNat := old
      omega
    rw [List.getElem?_eq_getElem inside] at panicked
    dsimp only at panicked
    split at panicked <;> contradiction
  · split at panicked <;> try contradiction
    split at panicked <;> try contradiction
    unfold push at panicked
    split at panicked <;> cases panicked

theorem soundNonces {crypto : Crypto} {c : Chain} (sound : Sound crypto c) (account : Account) :
    (sentBy account (committed c.blocks)).map (fun t => t.nonce.toNat) =
      List.range (sentBy account (committed c.blocks)).length := by
  have validated := auditedTransfers sound.audited
  have numbered := Ledger.validatedNonces validated account 0 (amountEmpty account)
  have counted : (sentBy account (committed c.blocks)).length ≤ (committed c.blocks).length := List.length_filter_le _ _
  have bound := (heapBounds c.blocks).2
  have fits := c.fits
  have read := congrArg (List.map UInt64.toNat) numbered
  simp only [List.map_map, Function.comp_def] at read
  rw [read, List.range_eq_range']
  refine (List.map_congr_left ?_).trans (List.map_id _)
  intro n inside
  have below := (List.mem_range'_1.mp inside).2
  rw [UInt64.toNat_ofNat', id]
  exact Nat.mod_eq_of_lt (by simp only [addressSpace] at fits; omega)

end Chain

theorem countSentNonce (ts : List Transfer) (account : Account) (nonce : UInt64) :
    (ts.map (fun t => (t.sender,t.nonce))).count (account,nonce) =
      ((sentBy account ts).map Transfer.nonce).count nonce := by
  induction ts with
  | nil => rfl
  | cons t ts ih =>
    by_cases mine : t.sender = account
    · simpa [sentBy, List.filter_cons, mine, List.count_cons] using ih
    · simpa [sentBy, List.filter_cons, mine, List.count_cons] using ih

namespace Chain

theorem noTransferCommittedTwice (crypto : Crypto) (genesis : BTreeMap Account Amount) (calls : List Call) :
    let c := run crypto genesis calls
    c.blocks.map (fun block => block.height.toNat) = List.range c.blocks.length ∧
    (∀ block, (c.acceptBlock crypto block).1 ≠ .panic .indexOutOfBounds) ∧
    (∀ account, (sentBy account (committed c.blocks)).map (fun t => t.nonce.toNat) =
      List.range (sentBy account (committed c.blocks)).length) ∧
    ((committed c.blocks).map (fun t => (t.sender,t.nonce))).Nodup := by
  intro c
  have sound := soundRun crypto genesis calls
  refine ⟨?_,lookupInRange sound,soundNonces sound,?_⟩
  · refine List.ext_getElem (by simp) ?_
    intro i left right
    have inside : i < c.blocks.length := by simpa using left
    simpa using soundHeights sound (List.getElem?_eq_getElem inside)
  · refine List.nodup_iff_count.mpr ?_
    intro key
    obtain ⟨account,nonce⟩ := key
    rw [countSentNonce]
    have distinct : ((sentBy account (committed c.blocks)).map Transfer.nonce).Nodup := by
      refine List.Nodup.of_map UInt64.toNat ?_
      rw [List.map_map]
      exact soundNonces sound account ▸ List.nodup_range
    exact List.nodup_iff_count.mp distinct nonce

end Chain
end CadsTunnel.Settlement
