import CadsTunnel.Machine
import CadsTunnel.OrderedMap
import CadsTunnel.SettlementObjects

/-! The hash-linked settlement ledger as the code computes it: replay with
saturating arithmetic, validation with checked arithmetic, and the cached state
that the two mutators keep warm. A chain always holds its genesis block and fits
the 64-bit address space; a push that would not fit does not return. -/
namespace CadsTunnel.Settlement
open Words OrderedMap

inductive ChainError where
  | badSignature
  | overdraft (sender : Account) (balance amount : Amount)
  | badNonce (sender : Account) (expected got : UInt64)
  | balanceOverflow (recipient : Account) (balance amount : Amount)
  | brokenChain (height : UInt64)
  deriving DecidableEq, Repr

inductive Panic where
  | indexOutOfBounds
  | outOfMemory
  deriving DecidableEq, Repr

inductive Outcome where
  | ok
  | err (e : ChainError)
  | panic (p : Panic)
  deriving DecidableEq, Repr

structure Ledger where
  balances : BTreeMap Account Amount
  nonces : BTreeMap Account UInt64

namespace Ledger

def apply (l : Ledger) (t : Transfer) : Ledger :=
  let debited := l.balances.insert t.sender (saturatingSub (amountAt l.balances t.sender) t.amount)
  let credited := debited.insert t.recipient (saturatingAdd (amountAt debited t.recipient) t.amount)
  ⟨credited,l.nonces.insert t.sender (amountAt l.nonces t.sender + 1)⟩

def validateAndApply (crypto : Crypto) (l : Ledger) (t : Transfer) : Except ChainError Ledger :=
  if !t.verify crypto then .error .badSignature
  else
    let expected := amountAt l.nonces t.sender
    if t.nonce ≠ expected then .error (.badNonce t.sender expected t.nonce)
    else
      let balance := amountAt l.balances t.sender
      if balance < t.amount then .error (.overdraft t.sender balance t.amount)
      else
        let toBalance := amountAt l.balances t.recipient
        match checkedAdd toBalance t.amount with
        | none => .error (.balanceOverflow t.recipient toBalance t.amount)
        | some _ => .ok (l.apply t)

def applyAll (l : Ledger) (ts : List Transfer) : Ledger := ts.foldl apply l

def validateAll (crypto : Crypto) (l : Ledger) (ts : List Transfer) : Except ChainError Ledger :=
  ts.foldlM (validateAndApply crypto) l

end Ledger

def addressSpace : Nat := 2 ^ 64

/- A block is 96 bytes in the block vector and each of its transfers 144 bytes in
the block's own vector. All of them are live at once, so they are disjoint. -/
def heapBytes (blocks : List Block) : Nat := (blocks.map (fun b => 96 + 144 * b.transfers.length)).sum

structure Chain where
  genesis : BTreeMap Account Amount
  blocks : List Block
  cachedState : Option Ledger
  nonempty : blocks ≠ []
  fits : heapBytes blocks < addressSpace

namespace Chain

def genesisBlock (crypto : Crypto) : Block :=
  ⟨0,.replicate 32 0,[],blockHash crypto 0 (.replicate 32 0) []⟩

def new (crypto : Crypto) (genesis : BTreeMap Account Amount) : Chain :=
  ⟨genesis,[genesisBlock crypto],none,by simp,by simp [heapBytes, genesisBlock, addressSpace]⟩

def tipBlock (c : Chain) : Block := c.blocks.getLast c.nonempty
def tipHash (c : Chain) : Hash := c.tipBlock.hash
def height (c : Chain) : UInt64 := c.tipBlock.height

def start (genesis : BTreeMap Account Amount) : Ledger := ⟨genesis,∅⟩

def replay (genesis : BTreeMap Account Amount) (blocks : List Block) : Ledger :=
  blocks.foldl (fun l b => l.applyAll b.transfers) (start genesis)

def computeState (c : Chain) : Ledger := replay c.genesis c.blocks

/- The state a read sees, and the chain after the read: an empty cache is filled. -/
def state (c : Chain) : Ledger × Chain :=
  let l := c.cachedState.getD c.computeState
  (l,{c with cachedState := some l})

def balance (c : Chain) (account : Account) : Amount × Chain :=
  (amountAt c.state.1.balances account,c.state.2)

def nextNonce (c : Chain) (account : Account) : UInt64 := amountAt c.state.1.nonces account

def push (c : Chain) (block : Block) (l : Ledger) : Outcome × Chain :=
  if fits : heapBytes (c.blocks ++ [block]) < addressSpace then
    (.ok,⟨c.genesis,c.blocks ++ [block],some l,by simp,fits⟩)
  else (.panic .outOfMemory,c)

def append (crypto : Crypto) (c : Chain) (transfers : List Transfer) : Outcome × Chain :=
  let (l,c) := c.state
  match l.validateAll crypto transfers with
  | .error e => (.err e,c)
  | .ok l =>
    let height := c.height + 1
    let prevHash := c.tipHash
    c.push ⟨height,prevHash,transfers,blockHash crypto height prevHash transfers⟩ l

def acceptBlock (crypto : Crypto) (c : Chain) (block : Block) : Outcome × Chain :=
  if block.height ≤ c.height then
    match c.blocks[block.height.toNat]? with
    | none => (.panic .indexOutOfBounds,c)
    | some known =>
      if block.hash = blockHash crypto block.height block.prevHash block.transfers ∧ known.hash = block.hash then (.ok,c)
      else (.err (.brokenChain block.height),c)
  else
    let expectedHeight := c.height + 1
    if block.height ≠ expectedHeight ∨ block.prevHash ≠ c.tipHash ∨
        block.hash ≠ blockHash crypto block.height block.prevHash block.transfers then
      (.err (.brokenChain expectedHeight),c)
    else
      let (l,c) := c.state
      match l.validateAll crypto block.transfers with
      | .error e => (.err e,c)
      | .ok l => c.push block l

/- The loop state of the full re-validation: the index, the previous hash, the ledger so far. -/
structure Audit where
  index : Nat
  prevHash : Hash
  ledger : Ledger

def auditBlock (crypto : Crypto) (a : Audit) (block : Block) : Except ChainError Audit :=
  let expectedHeight : UInt64 := .ofNat a.index
  if block.height ≠ expectedHeight ∨ block.prevHash ≠ a.prevHash ∨
      block.hash ≠ blockHash crypto block.height block.prevHash block.transfers then
    .error (.brokenChain expectedHeight)
  else (a.ledger.validateAll crypto block.transfers).map (fun l => ⟨a.index + 1,block.hash,l⟩)

def audit (crypto : Crypto) (genesis : BTreeMap Account Amount) (blocks : List Block) : Except ChainError Audit :=
  blocks.foldlM (auditBlock crypto) ⟨0,.replicate 32 0,start genesis⟩

def isValid (crypto : Crypto) (c : Chain) : Except ChainError Unit :=
  (audit crypto c.genesis c.blocks).map (fun _ => ())

inductive Call where
  | append (transfers : List Transfer)
  | acceptBlock (block : Block)
  | balance (account : Account)
  | clone

/- A query or a clone always returns; a clone duplicates the cache with everything else. -/
def call (crypto : Crypto) (c : Chain) : Call → Outcome × Chain
  | .append transfers => c.append crypto transfers
  | .acceptBlock block => c.acceptBlock crypto block
  | .balance account => (.ok,(c.balance account).2)
  | .clone => (.ok,⟨c.genesis,c.blocks,c.cachedState,c.nonempty,c.fits⟩)

def run (crypto : Crypto) (genesis : BTreeMap Account Amount) (calls : List Call) : Chain :=
  Machine.run (call crypto) (new crypto genesis) calls

end Chain

/- A funded sender and its first payment, for the fixed runs that accompany the results. -/
def payment : Transfer := ⟨.replicate 32 1,.replicate 32 2,5,0,.replicate 64 0⟩
def funded : BTreeMap Account Amount := (∅ : BTreeMap Account Amount).insert payment.sender 9

end CadsTunnel.Settlement
