import CadsTunnel.SettlementNonces

/-! Gossip from one producer to one replica. The producer only appends; the relay
hands the replica copies of blocks the producer holds, in any order and any
number of times. A copy delivered late is still the producer's block at that
index, because the producer never changes a block it has. -/
namespace CadsTunnel.Settlement
open Words OrderedMap

structure Pair where
  producer : Chain
  replica : Chain

inductive Event where
  | produce (transfers : List Transfer)
  | deliver (index : Nat)
  deriving DecidableEq, Repr

namespace Pair
open Chain

def step (crypto : Crypto) (p : Pair) : Event → Option Outcome × Pair
  | .produce transfers =>
    let (o,producer) := p.producer.append crypto transfers
    (some o,{p with producer})
  | .deliver index =>
    match p.producer.blocks[index]? with
    | none => (none,p)
    | some block =>
      let (o,replica) := p.replica.acceptBlock crypto block
      (some o,{p with replica})

def run (crypto : Crypto) (genesis : BTreeMap Account Amount) (events : List Event) : Pair :=
  Machine.run (step crypto) ⟨new crypto genesis,new crypto genesis⟩ events

/- The block of this height reaches the replica at a moment when it is the next one. -/
def DeliveredNext (crypto : Crypto) (genesis : BTreeMap Account Amount) (events : List Event) (height : Nat) : Prop :=
  ∃ before later, events = before ++ .deliver height :: later ∧
    height < (run crypto genesis before).producer.blocks.length ∧
    (run crypto genesis before).replica.height.toNat + 1 = height

end Pair

namespace Chain

theorem auditedHashes {crypto : Crypto} {blocks : List Block} {a a' : Audit}
    (ok : blocks.foldlM (auditBlock crypto) a = .ok a') {block : Block} (mem : block ∈ blocks) :
    block.hash = blockHash crypto block.height block.prevHash block.transfers := by
  induction blocks generalizing a with
  | nil => simp at mem
  | cons head rest ih =>
    obtain ⟨m,step,later⟩ := Machine.loopCons.mp ok
    rcases List.mem_cons.mp mem with rfl | old
    · exact (auditStep.mp step).2.2.1
    · exact ih later old

theorem redelivered {crypto : Crypto} {c : Chain} (sound : Sound crypto c) {block : Block} (mem : block ∈ c.blocks) :
    c.acceptBlock crypto block = (.ok,c) := by
  obtain ⟨i,found⟩ := List.mem_iff_getElem?.mp mem
  have height := soundHeights sound found
  have tip := soundHeight sound
  have inside : i < c.blocks.length := (List.getElem?_eq_some_iff.mp found).1
  have old : block.height ≤ c.height := UInt64.le_iff_toNat_le.mpr (by omega)
  rw [acceptBlock, if_pos old, height, found]
  exact if_pos ⟨auditedHashes sound.audited mem,rfl⟩

theorem nextHeight {crypto : Crypto} {c : Chain} (sound : Sound crypto c) : (c.height + 1).toNat = c.blocks.length := by
  have tip := soundHeight sound
  have bound := (heapBounds c.blocks).1
  have fits := c.fits
  simp only [addressSpace] at fits
  rw [UInt64.toNat_add]
  exact (Nat.mod_eq_of_lt (show c.height.toNat + 1 < 2 ^ 64 by omega)).trans tip

theorem aheadRefused {crypto : Crypto} {c : Chain} (sound : Sound crypto c) {block : Block}
    (ahead : c.blocks.length < block.height.toNat) :
    c.acceptBlock crypto block = (.err (.brokenChain (c.height + 1)),c) := by
  have tip := soundHeight sound
  have next := nextHeight sound
  have fresh : ¬ block.height ≤ c.height := fun old => by
    have known : block.height.toNat ≤ c.height.toNat := old
    omega
  have gap : block.height ≠ c.height + 1 := fun same => by rw [same] at ahead; omega
  rw [acceptBlock, if_neg fresh]
  exact if_pos (.inl gap)

theorem pushRoom {c : Chain} {block : Block} {l : Ledger} (room : heapBytes (c.blocks ++ [block]) < addressSpace) :
    ∃ c', c.push block l = (.ok,c') ∧ c'.blocks = c.blocks ++ [block] := by
  rw [push, dif_pos room]
  exact ⟨_,rfl,rfl⟩

/- The replica repeats the producer's own check: both audit the common prefix to
the same state, in which the producer's next block is valid. -/
theorem nextChecked {crypto : Crypto} {producer replica : Chain} (sound : Sound crypto producer)
    (replicaSound : Sound crypto replica) (origin : replica.genesis = producer.genesis) {block : Block}
    (next : replica.blocks ++ [block] <+: producer.blocks) :
    block.height = replica.height + 1 ∧ block.prevHash = replica.tipHash ∧
    block.hash = blockHash crypto block.height block.prevHash block.transfers ∧
    ∃ l, replica.state.1.validateAll crypto block.transfers = .ok l := by
  obtain ⟨rest,split⟩ := next
  have audited := sound.audited
  rw [← split, List.append_assoc, List.singleton_append, ← origin] at audited
  obtain ⟨m,first,later⟩ := Machine.loopAppend.mp audited
  cases replicaSound.audited.symm.trans first
  obtain ⟨n,checked,_⟩ := Machine.loopCons.mp later
  obtain ⟨height,link,hash,_,_,valid⟩ := auditStep.mp checked
  exact ⟨height.trans (soundNext replicaSound).symm,link,hash,n.ledger,by rw [soundState replicaSound]; exact valid⟩

theorem nextAccepted {crypto : Crypto} {producer replica : Chain} (sound : Sound crypto producer)
    (replicaSound : Sound crypto replica) (origin : replica.genesis = producer.genesis) {block : Block}
    (next : replica.blocks ++ [block] <+: producer.blocks) :
    ∃ c', replica.acceptBlock crypto block = (.ok,c') ∧ c'.blocks = replica.blocks ++ [block] := by
  obtain ⟨height,link,hash,l,valid⟩ := nextChecked sound replicaSound origin next
  have fresh : ¬ block.height ≤ replica.height := fun old => by
    have known : block.height.toNat ≤ replica.height.toNat := old
    rw [height, nextHeight replicaSound, ← soundHeight replicaSound] at known
    omega
  have linked : ¬ (block.height ≠ replica.height + 1 ∨ block.prevHash ≠ replica.tipHash ∨
      block.hash ≠ blockHash crypto block.height block.prevHash block.transfers) := by
    intro broken
    rcases broken with h | h | h
    · exact h height
    · exact h link
    · exact h hash
  have room : heapBytes (replica.blocks ++ [block]) < addressSpace := by
    obtain ⟨rest,split⟩ := next
    refine Nat.lt_of_le_of_lt ?_ producer.fits
    rw [← split]
    simp only [heapBytes, List.map_append, List.sum_append]
    omega
  rw [acceptBlock, if_neg fresh]
  simp only [if_neg linked, valid]
  exact @pushRoom replica.state.2 block l room

end Chain

namespace Pair
open Chain

structure Follows (crypto : Crypto) (genesis : BTreeMap Account Amount) (p : Pair) : Prop where
  producer : Sound crypto p.producer ∧ p.producer.genesis = genesis
  replica : Sound crypto p.replica ∧ p.replica.genesis = genesis
  shared : p.replica.blocks <+: p.producer.blocks

/- What handing over the producer's block at an index does, by where the index lies. -/
theorem deliverCases {crypto : Crypto} {genesis : BTreeMap Account Amount} {p : Pair} (follows : Follows crypto genesis p)
    {index : Nat} {block : Block} (found : p.producer.blocks[index]? = some block) :
    (index < p.replica.blocks.length ∧ p.replica.acceptBlock crypto block = (.ok,p.replica)) ∨
    (index = p.replica.blocks.length ∧ ∃ c', p.replica.acceptBlock crypto block = (.ok,c') ∧
      c'.blocks = p.replica.blocks ++ [block]) ∨
    (p.replica.blocks.length < index ∧
      p.replica.acceptBlock crypto block = (.err (.brokenChain (p.replica.height + 1)),p.replica)) := by
  obtain ⟨rest,split⟩ := follows.shared
  rcases Nat.lt_trichotomy index p.replica.blocks.length with old | next | ahead
  · rw [← split, List.getElem?_append_left old] at found
    exact .inl ⟨old,redelivered follows.replica.1 (List.mem_of_getElem? found)⟩
  · subst index
    rw [← split, List.getElem?_append_right (Nat.le_refl _), Nat.sub_self] at found
    obtain ⟨tail,rfl⟩ : ∃ tail, rest = block :: tail := by
      cases rest with
      | nil => simp at found
      | cons head tail =>
        cases Option.some.inj found
        exact ⟨tail,rfl⟩
    have extended : p.replica.blocks ++ [block] <+: p.producer.blocks := ⟨tail,by simpa using split⟩
    have origin := follows.replica.2.trans follows.producer.2.symm
    exact .inr (.inl ⟨rfl,nextAccepted follows.producer.1 follows.replica.1 origin extended⟩)
  · have height := soundHeights follows.producer.1 found
    exact .inr (.inr ⟨ahead,aheadRefused follows.replica.1 (by omega)⟩)

theorem deliverShared {crypto : Crypto} {genesis : BTreeMap Account Amount} {p : Pair} (follows : Follows crypto genesis p)
    {index : Nat} {block : Block} (found : p.producer.blocks[index]? = some block) :
    (p.replica.acceptBlock crypto block).2.blocks <+: p.producer.blocks := by
  rcases deliverCases follows found with ⟨_,same⟩ | ⟨next,c',accepted,blocks⟩ | ⟨_,same⟩
  · rw [same]
    exact follows.shared
  · obtain ⟨rest,split⟩ := follows.shared
    rw [accepted, blocks]
    rw [next, ← split, List.getElem?_append_right (Nat.le_refl _), Nat.sub_self] at found
    cases rest with
    | nil => simp at found
    | cons head tail =>
      cases Option.some.inj found
      exact ⟨tail,by simpa using split⟩
  · rw [same]
    exact follows.shared

theorem followsStep {crypto : Crypto} {genesis : BTreeMap Account Amount} (p : Pair) (event : Event)
    (follows : Follows crypto genesis p) : Follows crypto genesis (p.step crypto event).2 := by
  cases event with
  | produce transfers =>
    have grows := callGrows crypto p.producer (.append transfers)
    exact ⟨⟨soundCall p.producer (.append transfers) follows.producer.1,
      callGenesis p.producer (.append transfers) follows.producer.2⟩,follows.replica,follows.shared.trans grows⟩
  | deliver index =>
    cases found : p.producer.blocks[index]? with
    | none =>
      simp only [step, found]
      exact follows
    | some block =>
      simp only [step, found]
      exact ⟨follows.producer,⟨soundCall p.replica (.acceptBlock block) follows.replica.1,
        callGenesis p.replica (.acceptBlock block) follows.replica.2⟩,deliverShared follows found⟩

theorem followsRun (crypto : Crypto) (genesis : BTreeMap Account Amount) (events : List Event) :
    Follows crypto genesis (run crypto genesis events) :=
  Machine.runInvariant (Follows crypto genesis) followsStep
    ⟨⟨soundNew crypto genesis,rfl⟩,⟨soundNew crypto genesis,rfl⟩,List.prefix_refl _⟩ events

theorem replicaGrows (crypto : Crypto) (p : Pair) (event : Event) :
    p.replica.blocks <+: (p.step crypto event).2.replica.blocks := by
  cases event with
  | produce transfers => exact List.prefix_refl _
  | deliver index =>
    cases found : p.producer.blocks[index]? with
    | none =>
      simp only [step, found]
      exact List.prefix_refl _
    | some block =>
      simp only [step, found]
      exact callGrows crypto p.replica (.acceptBlock block)

/- A height delivered when it is next is held from then on. -/
theorem deliveredHeld {crypto : Crypto} {genesis : BTreeMap Account Amount} {events : List Event} {height : Nat}
    (delivered : DeliveredNext crypto genesis events height) :
    height < (run crypto genesis events).replica.blocks.length := by
  obtain ⟨before,later,rfl,inside,next⟩ := delivered
  have follows := followsRun crypto genesis before
  have tip := soundHeight follows.replica.1
  have found := List.getElem?_eq_getElem inside
  obtain ⟨c',accepted,blocks⟩ : ∃ c', (run crypto genesis before).replica.acceptBlock crypto
      (run crypto genesis before).producer.blocks[height] = (.ok,c') ∧
      c'.blocks = (run crypto genesis before).replica.blocks ++ [(run crypto genesis before).producer.blocks[height]] := by
    rcases deliverCases follows found with ⟨old,_⟩ | ⟨_,extended⟩ | ⟨ahead,_⟩
    · omega
    · exact extended
    · omega
  have grown := Machine.runMonotone (fun a b : Pair => a.replica.blocks <+: b.replica.blocks)
    (fun _ => List.prefix_refl _) (fun _ _ _ => List.IsPrefix.trans) (replicaGrows crypto)
    ((run crypto genesis before).step crypto (.deliver height)).2 later
  have reached : run crypto genesis (before ++ .deliver height :: later) =
      Machine.run (step crypto) ((run crypto genesis before).step crypto (.deliver height)).2 later :=
    Machine.runAppend _ before _
  rw [reached]
  refine Nat.lt_of_lt_of_le ?_ grown.length_le
  simp only [step, found, accepted, blocks, List.length_append, List.length_singleton]
  omega

theorem replicaFollowsProducer (crypto : Crypto) (genesis : BTreeMap Account Amount) (events : List Event) :
    let p := run crypto genesis events
    p.replica.blocks <+: p.producer.blocks ∧
    (∀ account, (p.replica.balance account).1 = amountAt (replay genesis p.replica.blocks).balances account) ∧
    (∀ block ∈ p.replica.blocks, p.replica.acceptBlock crypto block = (.ok,p.replica)) ∧
    (∀ block ∈ p.producer.blocks, p.replica.height.toNat + 1 < block.height.toNat →
      ∃ e, p.replica.acceptBlock crypto block = (.err e,p.replica)) ∧
    ((∀ height, 0 < height → height ≤ p.producer.height.toNat → DeliveredNext crypto genesis events height) →
      p.replica.blocks = p.producer.blocks ∧ p.replica.tipHash = p.producer.tipHash ∧
      ∀ account, (p.replica.balance account).1 = (p.producer.balance account).1) := by
  intro p
  have follows := followsRun crypto genesis events
  have balances : ∀ c : Chain, Sound crypto c → c.genesis = genesis → ∀ account,
      (c.balance account).1 = amountAt (replay genesis c.blocks).balances account := by
    intro c sound origin account
    rw [balance, soundState sound, computeState, origin]
  refine ⟨follows.shared,balances _ follows.replica.1 follows.replica.2,fun block => redelivered follows.replica.1,?_,?_⟩
  · intro block mem ahead
    rw [soundHeight follows.replica.1] at ahead
    exact ⟨_,aheadRefused follows.replica.1 ahead⟩
  · intro delivered
    have tip := soundHeight follows.producer.1
    have positive : 0 < p.replica.blocks.length := List.length_pos_iff.mpr p.replica.nonempty
    have complete : p.producer.blocks.length ≤ p.replica.blocks.length := by
      rcases Nat.eq_zero_or_pos p.producer.height.toNat with zero | more
      · have single : p.producer.blocks.length = 1 := by rw [← tip, zero]
        omega
      · have held := deliveredHeld (delivered _ more (Nat.le_refl _))
        rw [← tip]
        exact held
    have same : p.replica.blocks = p.producer.blocks := follows.shared.eq_of_length_le complete
    refine ⟨same,by simp only [tipHash, tipBlock, same],fun account => ?_⟩
    rw [balances _ follows.replica.1 follows.replica.2, balances _ follows.producer.1 follows.producer.2, same]

/- One funded sender, one signed payment, delivered once. -/
def signedCrypto : Crypto := ⟨fun _ _ _ => true,fun raw => .ofFn (fun i => raw.getD i.val 0)⟩

theorem replicaHoldsPayment :
    DeliveredNext signedCrypto funded [.produce [payment],.deliver 1] 1 ∧
    (run signedCrypto funded [.produce [payment],.deliver 1]).replica.blocks =
      (run signedCrypto funded [.produce [payment],.deliver 1]).producer.blocks := by
  have height : (run signedCrypto funded [.produce [payment],.deliver 1]).producer.height.toNat = 1 := by decide +kernel
  have delivered : DeliveredNext signedCrypto funded [.produce [payment],.deliver 1] 1 :=
    ⟨[.produce [payment]],[],rfl,by decide +kernel,by decide +kernel⟩
  refine ⟨delivered,((replicaFollowsProducer signedCrypto funded _).2.2.2.2 ?_).1⟩
  intro h positive bound
  rw [height] at bound
  cases (show h = 1 by omega)
  exact delivered

end Pair
end CadsTunnel.Settlement
