import CadsTunnel.SettlementChain

/-! What one call can do to a chain, and the invariant every run keeps: the full
re-validation of the stored blocks succeeds and ends in the replayed ledger, and
a warm cache holds that ledger. Conservation of value follows from the checked
transfer alone. -/
namespace CadsTunnel.Settlement
open Words OrderedMap

namespace Ledger

theorem validApply {crypto : Crypto} {l l' : Ledger} {t : Transfer} (ok : l.validateAndApply crypto t = .ok l') :
    l' = l.apply t ∧ t.verify crypto = true ∧ t.nonce = amountAt l.nonces t.sender ∧
    t.amount ≤ amountAt l.balances t.sender ∧
    (amountAt l.balances t.recipient).toNat + t.amount.toNat < 2 ^ 64 := by
  unfold validateAndApply at ok
  split at ok <;> try contradiction
  rename_i signed
  dsimp only at ok
  split at ok <;> try contradiction
  rename_i nonce
  split at ok <;> try contradiction
  rename_i covered
  split at ok <;> try contradiction
  rename_i credited found
  cases ok
  have bound := checkedAddSome found
  exact ⟨rfl,by simpa using signed,not_not.mp nonce,UInt64.not_lt.mp covered,by have := credited.toNat_lt; omega⟩

/- The debit is exact because the sender is covered, the credit because the
recipient's balance was checked before the debit; for a transfer to itself the
credit lands on the debited balance, which is only smaller. -/
theorem applySupply {l : Ledger} {t : Transfer} (covered : t.amount ≤ amountAt l.balances t.sender)
    (bound : (amountAt l.balances t.recipient).toNat + t.amount.toNat < 2 ^ 64) :
    supply (l.apply t).balances = supply l.balances := by
  have enough : t.amount.toNat ≤ (amountAt l.balances t.sender).toNat := covered
  have debit := saturatingSubExact covered
  have afterDebit := supplyInsert l.balances t.sender (saturatingSub (amountAt l.balances t.sender) t.amount)
  have credited := amountInsert l.balances t.sender t.recipient (saturatingSub (amountAt l.balances t.sender) t.amount)
  simp only [apply]
  generalize l.balances.insert t.sender (saturatingSub (amountAt l.balances t.sender) t.amount) = debited at *
  have room : (amountAt debited t.recipient).toNat + t.amount.toNat < 2 ^ 64 := by
    rw [credited]
    split
    · have := (amountAt l.balances t.sender).toNat_lt
      omega
    · exact bound
  have credit := saturatingAddExact room
  have afterCredit := supplyInsert debited t.recipient (saturatingAdd (amountAt debited t.recipient) t.amount)
  omega

theorem validSupply {crypto : Crypto} {l l' : Ledger} {t : Transfer} (ok : l.validateAndApply crypto t = .ok l') :
    supply l'.balances = supply l.balances := by
  obtain ⟨rfl,_,_,covered,bound⟩ := validApply ok
  exact applySupply covered bound

theorem validatedSupply {crypto : Crypto} {l l' : Ledger} {ts : List Transfer} (ok : l.validateAll crypto ts = .ok l') :
    supply l'.balances = supply l.balances :=
  Machine.loopInvariant (fun m => supply m.balances = supply l.balances)
    (fun _ _ _ step same => (validSupply step).trans same) ok rfl

theorem validatedApplied {crypto : Crypto} {l l' : Ledger} {ts : List Transfer} (ok : l.validateAll crypto ts = .ok l') :
    l' = l.applyAll ts := Machine.loopUnchecked (fun _ _ _ step => (validApply step).1) ok

end Ledger

namespace Chain

/- Everything that pushing a block onto a chain requires and changes. -/
structure Extends (crypto : Crypto) (c : Chain) (block : Block) (c' : Chain) : Prop where
  height : block.height = c.height + 1
  link : block.prevHash = c.tipHash
  hash : block.hash = blockHash crypto block.height block.prevHash block.transfers
  ledger : ∃ l, c.state.1.validateAll crypto block.transfers = .ok l ∧ c'.cachedState = some l
  blocks : c'.blocks = c.blocks ++ [block]
  genesis : c'.genesis = c.genesis

theorem pushCases {c : Chain} {block : Block} {l : Ledger} {o : Outcome} {c' : Chain} (h : c.push block l = (o,c')) :
    (o = .ok ∧ c'.cachedState = some l ∧ c'.blocks = c.blocks ++ [block] ∧ c'.genesis = c.genesis) ∨
    (o = .panic .outOfMemory ∧ c' = c) := by
  unfold push at h
  split at h
  · cases h
    exact .inl ⟨rfl,rfl,rfl,rfl⟩
  · cases h
    exact .inr ⟨rfl,rfl⟩

theorem appendCases {crypto : Crypto} {c : Chain} {ts : List Transfer} {o : Outcome} {c' : Chain}
    (h : c.append crypto ts = (o,c')) :
    (o = .ok ∧ ∃ block, block.transfers = ts ∧ Extends crypto c block c') ∨ (o ≠ .ok ∧ c' = c.state.2) := by
  simp only [append] at h
  split at h
  · cases h
    exact .inr ⟨by simp,rfl⟩
  · rename_i l valid
    rcases pushCases h with ⟨rfl,cached,blocks,genesis⟩ | ⟨rfl,rfl⟩
    · exact .inl ⟨rfl,_,rfl,rfl,rfl,rfl,⟨l,valid,cached⟩,blocks,genesis⟩
    · exact .inr ⟨by simp,rfl⟩

theorem acceptCases {crypto : Crypto} {c : Chain} {block : Block} {o : Outcome} {c' : Chain}
    (h : c.acceptBlock crypto block = (o,c')) :
    (o = .ok ∧ block.height ≤ c.height ∧ c' = c) ∨ (o = .ok ∧ ¬ block.height ≤ c.height ∧ Extends crypto c block c') ∨
    (o ≠ .ok ∧ (c' = c ∨ c' = c.state.2)) := by
  simp only [acceptBlock] at h
  split at h
  · rename_i old
    split at h
    · cases h; exact .inr (.inr ⟨by simp,.inl rfl⟩)
    · split at h
      · cases h; exact .inl ⟨rfl,old,rfl⟩
      · cases h; exact .inr (.inr ⟨by simp,.inl rfl⟩)
  · rename_i fresh
    split at h
    · cases h; exact .inr (.inr ⟨by simp,.inl rfl⟩)
    · rename_i linked
      simp only [not_or, not_not] at linked
      split at h
      · cases h; exact .inr (.inr ⟨by simp,.inr rfl⟩)
      · rename_i l valid
        rcases pushCases h with ⟨rfl,cached,blocks,genesis⟩ | ⟨rfl,rfl⟩
        · exact .inr (.inl ⟨rfl,fresh,linked.1,linked.2.1,linked.2.2,⟨l,valid,cached⟩,blocks,genesis⟩)
        · exact .inr (.inr ⟨by simp,.inr rfl⟩)

/- One call leaves the chain alone, fills its cache, or extends it by one block. -/
theorem callCases (crypto : Crypto) (c : Chain) (request : Call) :
    (c.call crypto request).2 = c ∨ (c.call crypto request).2 = c.state.2 ∨
    ∃ block, Extends crypto c block (c.call crypto request).2 := by
  cases request with
  | append ts =>
    rcases @appendCases crypto c ts _ _ rfl with ⟨_,block,_,extended⟩ | ⟨_,same⟩
    · exact .inr (.inr ⟨block,extended⟩)
    · exact .inr (.inl same)
  | acceptBlock block =>
    rcases @acceptCases crypto c block _ _ rfl with ⟨_,_,same⟩ | ⟨_,_,extended⟩ | ⟨_,same | same⟩
    · exact .inl same
    · exact .inr (.inr ⟨block,extended⟩)
    · exact .inl same
    · exact .inr (.inl same)
  | balance account => exact .inr (.inl rfl)
  | clone => exact .inl rfl

theorem auditStep {crypto : Crypto} {a a' : Audit} {block : Block} :
    auditBlock crypto a block = .ok a' ↔ block.height = .ofNat a.index ∧ block.prevHash = a.prevHash ∧
      block.hash = blockHash crypto block.height block.prevHash block.transfers ∧ a'.index = a.index + 1 ∧
      a'.prevHash = block.hash ∧ a.ledger.validateAll crypto block.transfers = .ok a'.ledger := by
  obtain ⟨index,prevHash,ledger⟩ := a'
  simp only [auditBlock]
  split
  · rename_i broken
    refine ⟨fun h => by contradiction,fun ⟨height,link,hash,_⟩ => ?_⟩
    rcases broken with h | h | h
    · exact absurd height h
    · exact absurd link h
    · exact absurd hash h
  · rename_i linked
    simp only [not_or, not_not] at linked
    cases valid : a.ledger.validateAll crypto block.transfers with
    | error e => simp [Except.map]
    | ok l =>
      constructor
      · intro h
        cases h
        exact ⟨linked.1,linked.2.1,linked.2.2,rfl,rfl,rfl⟩
      · intro linked
        obtain ⟨_,_,_,rfl,rfl,same⟩ := linked
        cases same
        rfl

theorem replayAppend (genesis : BTreeMap Account Amount) (blocks : List Block) (block : Block) :
    replay genesis (blocks ++ [block]) = (replay genesis blocks).applyAll block.transfers := by
  simp [replay]

structure Sound (crypto : Crypto) (c : Chain) : Prop where
  audited : audit crypto c.genesis c.blocks = .ok ⟨c.blocks.length,c.tipHash,c.computeState⟩
  height : c.height = .ofNat (c.blocks.length - 1)
  cached : c.cachedState = none ∨ c.cachedState = some c.computeState

theorem soundState {crypto : Crypto} {c : Chain} (sound : Sound crypto c) : c.state.1 = c.computeState := by
  rcases sound.cached with h | h <;> simp [state, h]

theorem soundNew (crypto : Crypto) (genesis : BTreeMap Account Amount) : Sound crypto (new crypto genesis) := by
  refine ⟨?_,rfl,.inl rfl⟩
  refine Machine.loopCons.mpr ⟨⟨1,(genesisBlock crypto).hash,start genesis⟩,?_,rfl⟩
  exact auditStep.mpr ⟨rfl,rfl,rfl,rfl,rfl,rfl⟩

theorem soundWarm {crypto : Crypto} {c : Chain} (sound : Sound crypto c) : Sound crypto c.state.2 :=
  ⟨sound.audited,sound.height,.inr (congrArg some (soundState sound))⟩

theorem extendedTip {crypto : Crypto} {c c' : Chain} {block : Block} (h : Extends crypto c block c') :
    c'.tipBlock = block := by
  simp [tipBlock, h.blocks]

theorem soundNext {crypto : Crypto} {c : Chain} (sound : Sound crypto c) : c.height + 1 = .ofNat c.blocks.length := by
  have positive : 0 < c.blocks.length := List.length_pos_iff.mpr c.nonempty
  rw [sound.height, ofNatSucc, Nat.sub_add_cancel positive]

theorem soundExtends {crypto : Crypto} {c c' : Chain} {block : Block} (sound : Sound crypto c)
    (h : Extends crypto c block c') : Sound crypto c' := by
  obtain ⟨l,valid,cached⟩ := h.ledger
  rw [soundState sound] at valid
  have replayed : c'.computeState = l := by
    rw [computeState, h.genesis, h.blocks, replayAppend]
    exact (Ledger.validatedApplied valid).symm
  have height : block.height = .ofNat c.blocks.length := h.height.trans (soundNext sound)
  refine ⟨?_,?_,.inr (replayed ▸ cached)⟩
  · rw [h.genesis, h.blocks, replayed, tipHash, extendedTip h]
    refine Machine.loopAppend.mpr ⟨_,sound.audited,Machine.loopCons.mpr ⟨_,auditStep.mpr ?_,rfl⟩⟩
    exact ⟨height,h.link,h.hash,by simp,rfl,valid⟩
  · rw [Chain.height, extendedTip h, height, h.blocks]
    simp

theorem soundCall {crypto : Crypto} (c : Chain) (request : Call) (sound : Sound crypto c) :
    Sound crypto (c.call crypto request).2 := by
  rcases callCases crypto c request with same | same | ⟨block,extended⟩
  · rw [same]
    exact sound
  · rw [same]
    exact soundWarm sound
  · exact soundExtends sound extended

theorem callGrows (crypto : Crypto) (c : Chain) (request : Call) : c.blocks <+: (c.call crypto request).2.blocks := by
  rcases callCases crypto c request with same | same | ⟨block,extended⟩
  · exact ⟨[],by rw [List.append_nil, same]⟩
  · exact ⟨[],by rw [List.append_nil, same]; rfl⟩
  · rw [extended.blocks]
    exact List.prefix_append _ _

theorem callGenesis {crypto : Crypto} {genesis : BTreeMap Account Amount} (c : Chain) (request : Call)
    (same : c.genesis = genesis) : (c.call crypto request).2.genesis = genesis := by
  rcases callCases crypto c request with h | h | ⟨block,extended⟩
  · rw [h, same]
  · rw [h]
    exact same
  · rw [extended.genesis, same]

theorem runGenesis (crypto : Crypto) (genesis : BTreeMap Account Amount) (calls : List Call) :
    (run crypto genesis calls).genesis = genesis :=
  Machine.runInvariant (fun c : Chain => c.genesis = genesis) callGenesis rfl calls

theorem soundRun (crypto : Crypto) (genesis : BTreeMap Account Amount) (calls : List Call) :
    Sound crypto (run crypto genesis calls) :=
  Machine.runInvariant (Sound crypto) soundCall (soundNew crypto genesis) calls

/- The incrementally maintained cache, the saturating replay and the checked
re-validation compute the same ledger for every chain a run can reach. -/
theorem cacheReplayAuditAgree (crypto : Crypto) (genesis : BTreeMap Account Amount) (calls : List Call) :
    let c := run crypto genesis calls
    (c.cachedState = none ∨ c.cachedState = some c.computeState) ∧ c.computeState = replay genesis c.blocks ∧
    c.isValid crypto = .ok () ∧ ∃ a, audit crypto genesis c.blocks = .ok a ∧ a.ledger = c.computeState := by
  intro c
  have sound := soundRun crypto genesis calls
  have origin := runGenesis crypto genesis calls
  have audited := sound.audited
  refine ⟨sound.cached,by rw [computeState, origin],?_,_,origin ▸ audited,rfl⟩
  rw [isValid, audited]
  rfl

theorem auditSupply {crypto : Crypto} {genesis : BTreeMap Account Amount} {blocks : List Block} {a : Audit}
    (ok : audit crypto genesis blocks = .ok a) : supply a.ledger.balances = supply genesis := by
  refine Machine.loopInvariant (fun b : Audit => supply b.ledger.balances = supply genesis) ?_ ok rfl
  intro b block b' step same
  exact (Ledger.validatedSupply (auditStep.mp step).2.2.2.2.2).trans same

theorem failedCall {crypto : Crypto} {c : Chain} {request : Call} (failed : (c.call crypto request).1 ≠ .ok) :
    (c.call crypto request).2 = c ∨ (c.call crypto request).2 = c.state.2 := by
  cases request with
  | append ts =>
    rcases @appendCases crypto c ts _ _ rfl with ⟨ok,_⟩ | ⟨_,same⟩
    · exact absurd ok failed
    · exact .inr same
  | acceptBlock block =>
    rcases @acceptCases crypto c block _ _ rfl with ⟨ok,_⟩ | ⟨ok,_⟩ | ⟨_,same⟩
    · exact absurd ok failed
    · exact absurd ok failed
    · exact same
  | balance account => exact .inr rfl
  | clone => exact .inl rfl

theorem valueConserved (crypto : Crypto) (genesis : BTreeMap Account Amount) (calls : List Call) :
    let c := run crypto genesis calls
    supply c.state.1.balances = supply genesis ∧
    ∀ request e, (c.call crypto request).1 = .err e →
      (c.call crypto request).2.blocks = c.blocks ∧
      ∀ account, ((c.call crypto request).2.balance account).1 = (c.balance account).1 ∧
        (c.call crypto request).2.nextNonce account = c.nextNonce account := by
  intro c
  have sound := soundRun crypto genesis calls
  constructor
  · have conserved := auditSupply sound.audited
    rw [runGenesis] at conserved
    rw [soundState sound]
    exact conserved
  · intro request e failed
    rcases failedCall (show (c.call crypto request).1 ≠ .ok by rw [failed]; simp) with same | same
    · rw [same]
      exact ⟨rfl,fun _ => ⟨rfl,rfl⟩⟩
    · rw [same]
      exact ⟨rfl,fun _ => ⟨rfl,rfl⟩⟩

/- A transfer nobody signed: the whole batch is refused and nothing moves. -/
theorem valueConservedUnsigned :
    let crypto : Crypto := ⟨fun _ _ _ => false,fun _ => .replicate 32 0⟩
    let c := run crypto funded []
    (c.call crypto (.append [payment])).1 = .err .badSignature ∧
    (c.call crypto (.append [payment])).2.blocks = c.blocks := by
  intro crypto c
  exact ⟨rfl,((valueConserved crypto funded []).2 (.append [payment]) .badSignature rfl).1⟩

end Chain
end CadsTunnel.Settlement
