import CadsTunnel.SettlementNonces

/-! Tamper evidence. A block preimage determines height, previous hash and every
transfer with its signature, so two audited block lists with the same last hash
agree block by block down to genesis. The hash is only assumed to be free of
collisions on the preimages of the two chains at hand: no function into 32 bytes
is injective on all inputs. -/
namespace CadsTunnel.Settlement
open Words Delimited

theorem transferDelimits : Delimits Everything Transfer.encode := by
  intro a b _ _ r s same
  simp only [Transfer.encode, List.append_assoc] at same
  obtain ⟨sender,rest⟩ := arrayDelimits 32 trivial trivial same
  obtain ⟨recipient,rest⟩ := arrayDelimits 32 trivial trivial rest
  obtain ⟨amount,rest⟩ := u64Delimits trivial trivial rest
  obtain ⟨nonce,rest⟩ := u64Delimits trivial trivial rest
  obtain ⟨signature,rest⟩ := arrayDelimits 64 trivial trivial rest
  exact ⟨Transfer.ext sender recipient amount nonce signature,rest⟩

theorem blockPreimageFields (height : UInt64) (prevHash : Hash) (ts : List Transfer) :
    blockPreimage height prevHash ts = asBytes "ct-settlement-block-v1" ++
      (u64LE height ++ (prevHash.toList ++ (le 4 ts.length ++ ts.flatMap Transfer.encode))) := by
  unfold blockPreimage
  rw [u32LECount, List.append_assoc, List.append_assoc, List.append_assoc]
  rfl

theorem blockPreimageInjective {height height' : UInt64} {prevHash prevHash' : Hash} {ts ts' : List Transfer}
    (small : ts.length < 2 ^ 32) (small' : ts'.length < 2 ^ 32)
    (same : blockPreimage height prevHash ts = blockPreimage height' prevHash' ts') :
    height = height' ∧ prevHash = prevHash' ∧ ts = ts' := by
  rw [blockPreimageFields, blockPreimageFields] at same
  obtain ⟨heights,rest⟩ := u64Delimits trivial trivial (List.append_cancel_left same)
  obtain ⟨links,rest⟩ := arrayDelimits 32 trivial trivial rest
  have transfers := (countedDelimits 4 transferDelimits).injective ⟨small,fun _ _ => trivial⟩ ⟨small',fun _ _ => trivial⟩ rest
  exact ⟨heights,links,transfers⟩

namespace Chain

def preimages (blocks : List Block) : Set Bytes :=
  {raw | ∃ block ∈ blocks, raw = blockPreimage block.height block.prevHash block.transfers}

theorem auditedIndex {crypto : Crypto} {blocks : List Block} {a a' : Audit}
    (ok : blocks.foldlM (auditBlock crypto) a = .ok a') : a'.index = a.index + blocks.length := by
  induction blocks generalizing a with
  | nil =>
    cases Machine.loopNil.mp ok
    rfl
  | cons block rest ih =>
    obtain ⟨m,step,later⟩ := Machine.loopCons.mp ok
    rw [ih later, (auditStep.mp step).2.2.2.1, List.length_cons]
    omega

theorem auditedLast {crypto : Crypto} {genesis : OrderedMap.BTreeMap Account Amount} {blocks : List Block} {block : Block}
    {a : Audit} (ok : audit crypto genesis (blocks ++ [block]) = .ok a) :
    ∃ m, audit crypto genesis blocks = .ok m ∧ block.height = .ofNat blocks.length ∧ block.prevHash = m.prevHash ∧
      block.hash = blockHash crypto block.height block.prevHash block.transfers ∧ a.prevHash = block.hash := by
  obtain ⟨m,first,last⟩ := Machine.loopAppend.mp ok
  obtain ⟨n,step,done⟩ := Machine.loopCons.mp last
  cases Machine.loopNil.mp done
  obtain ⟨height,link,hash,_,next,_⟩ := auditStep.mp step
  rw [auditedIndex first, Nat.zero_add] at height
  exact ⟨m,first,height,link,hash,next⟩

/- Two blocks with the same hash are the same block. -/
theorem sameHashSameBlock {crypto : Crypto} {known : Set Bytes} (collisionFree : Set.InjOn crypto.sha256 known)
    {a b : Block} (memA : blockPreimage a.height a.prevHash a.transfers ∈ known)
    (memB : blockPreimage b.height b.prevHash b.transfers ∈ known)
    (smallA : a.transfers.length < 2 ^ 32) (smallB : b.transfers.length < 2 ^ 32)
    (hashA : a.hash = blockHash crypto a.height a.prevHash a.transfers)
    (hashB : b.hash = blockHash crypto b.height b.prevHash b.transfers) (same : a.hash = b.hash) : a = b := by
  have digests : crypto.sha256 (blockPreimage a.height a.prevHash a.transfers) =
      crypto.sha256 (blockPreimage b.height b.prevHash b.transfers) := hashA.symm.trans (same.trans hashB)
  obtain ⟨height,link,transfers⟩ := blockPreimageInjective smallA smallB (collisionFree memA memB digests)
  exact Block.ext height link transfers same

/- Induction from the tip down: equal last hashes give equal last blocks, whose
previous hashes are the last hashes of the shorter lists. -/
theorem sameEnd {crypto : Crypto} {genesis genesis' : OrderedMap.BTreeMap Account Amount} {known : Set Bytes}
    (collisionFree : Set.InjOn crypto.sha256 known) {xs ys : List Block} {a a' : Audit}
    (left : audit crypto genesis xs = .ok a) (right : audit crypto genesis' ys = .ok a')
    (knownXs : preimages xs ⊆ known) (knownYs : preimages ys ⊆ known)
    (smallXs : ∀ block ∈ xs, block.transfers.length < 2 ^ 32) (smallYs : ∀ block ∈ ys, block.transfers.length < 2 ^ 32)
    (length : xs.length = ys.length) (last : a.prevHash = a'.prevHash) : xs = ys := by
  induction xs using List.reverseRecOn generalizing ys a a' with
  | nil => exact (List.length_eq_zero_iff.mp length.symm).symm
  | append_singleton xs x ih =>
    rcases List.eq_nil_or_concat' ys with rfl | ⟨ys,y,rfl⟩
    · simp at length
    · obtain ⟨m,first,_,link,hash,next⟩ := auditedLast left
      obtain ⟨m',first',_,link',hash',next'⟩ := auditedLast right
      have memX : x ∈ xs ++ [x] := by simp
      have memY : y ∈ ys ++ [y] := by simp
      have same : x = y := sameHashSameBlock collisionFree (knownXs ⟨x,memX,rfl⟩) (knownYs ⟨y,memY,rfl⟩)
        (smallXs x memX) (smallYs y memY) hash hash' (next.symm.trans (last.trans next'))
      subst y
      have shorter : xs = ys := ih first first' (fun raw ⟨b,mem,eq⟩ => knownXs ⟨b,by simp [mem],eq⟩)
        (fun raw ⟨b,mem,eq⟩ => knownYs ⟨b,by simp [mem],eq⟩) (fun b mem => smallXs b (by simp [mem]))
        (fun b mem => smallYs b (by simp [mem])) (by simpa using length) (link.symm.trans link')
      rw [shorter]

theorem validAudited {crypto : Crypto} {c : Chain} (valid : c.isValid crypto = .ok ()) :
    ∃ a, audit crypto c.genesis c.blocks = .ok a := by
  unfold isValid at valid
  cases h : audit crypto c.genesis c.blocks with
  | error e => simp [h, Except.map] at valid
  | ok a => exact ⟨a,rfl⟩

theorem auditedTip {crypto : Crypto} {c : Chain} {a : Audit} (ok : audit crypto c.genesis c.blocks = .ok a) :
    a.prevHash = c.tipHash ∧ c.height.toNat + 1 = c.blocks.length ∧ c.tipBlock ∈ c.blocks ∧
    c.tipHash = blockHash crypto c.height c.tipBlock.prevHash c.tipBlock.transfers := by
  have split : c.blocks.dropLast ++ [c.tipBlock] = c.blocks := List.dropLast_append_getLast c.nonempty
  have length := congrArg List.length split
  simp only [List.length_append, List.length_singleton] at length
  rw [← split] at ok
  obtain ⟨m,_,height,_,hash,next⟩ := auditedLast ok
  refine ⟨next,?_,List.getLast_mem c.nonempty,hash⟩
  have bound := (heapBounds c.blocks).1
  have fits := c.fits
  simp only [addressSpace] at fits
  rw [Chain.height, height, UInt64.toNat_ofNat', Nat.mod_eq_of_lt (by omega)]
  exact length

theorem sameTipSameHistory {crypto : Crypto} {c d : Chain}
    (collisionFree : Set.InjOn crypto.sha256 (preimages c.blocks ∪ preimages d.blocks))
    (smallC : ∀ block ∈ c.blocks, block.transfers.length < 2 ^ 32)
    (smallD : ∀ block ∈ d.blocks, block.transfers.length < 2 ^ 32)
    (validC : c.isValid crypto = .ok ()) (validD : d.isValid crypto = .ok ())
    (tip : c.tipHash = d.tipHash) : c.blocks = d.blocks := by
  obtain ⟨a,left⟩ := validAudited validC
  obtain ⟨b,right⟩ := validAudited validD
  obtain ⟨lastC,heightC,memC,hashC⟩ := auditedTip left
  obtain ⟨lastD,heightD,memD,hashD⟩ := auditedTip right
  have same : c.tipBlock = d.tipBlock := sameHashSameBlock collisionFree (.inl ⟨_,memC,rfl⟩) (.inr ⟨_,memD,rfl⟩)
    (smallC _ memC) (smallD _ memD) hashC hashD tip
  have length : c.blocks.length = d.blocks.length := by
    rw [← heightC, ← heightD, Chain.height, Chain.height, same]
  exact sameEnd collisionFree left right (fun _ h => .inl h) (fun _ h => .inr h) smallC smallD length
    (lastC.trans (tip.trans lastD.symm))

/- The producer of a payment and a replica that accepted its block: on these two
preimages the stand-in hash, which keeps the height bytes, has no collision. -/
def heightCrypto : Crypto := ⟨fun _ _ _ => true,fun raw => .ofFn (fun i => raw.getD (22 + i.val) 0)⟩
def paid : Chain := run heightCrypto funded [.append [payment]]
def gossiped : Chain := run heightCrypto funded [.balance payment.sender,.acceptBlock paid.tipBlock]

theorem paidHistory : paid.tipHash = gossiped.tipHash ∧ paid.blocks = gossiped.blocks := by
  have tip : paid.tipHash = gossiped.tipHash := by decide +kernel
  have held : gossiped.blocks = paid.blocks := by decide +kernel
  have small : ∀ block ∈ paid.blocks, block.transfers.length < 2 ^ 32 := by decide +kernel
  have distinct : ∀ a ∈ paid.blocks, ∀ b ∈ paid.blocks,
      heightCrypto.sha256 (blockPreimage a.height a.prevHash a.transfers) =
        heightCrypto.sha256 (blockPreimage b.height b.prevHash b.transfers) →
      blockPreimage a.height a.prevHash a.transfers = blockPreimage b.height b.prevHash b.transfers := by decide +kernel
  refine ⟨tip,@sameTipSameHistory heightCrypto _ _ ?_ small (held ▸ small) (by decide +kernel) (by decide +kernel) tip⟩
  rw [held, Set.union_self]
  intro left memLeft right memRight same
  obtain ⟨a,memA,rfl⟩ := memLeft
  obtain ⟨b,memB,rfl⟩ := memRight
  exact distinct a memA b memB same

end Chain
end CadsTunnel.Settlement
