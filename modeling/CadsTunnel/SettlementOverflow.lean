import CadsTunnel.SettlementSound

/-! When the credit check of a transfer trips. Under a bounded supply two accounts
never hold more than an amount can say, so a credit from another account fits. The
check reads the recipient before the debit, though, and a payment to oneself is
measured against the balance it is taken from: it trips as soon as the two do not
fit side by side. -/
namespace CadsTunnel.Settlement
open Words OrderedMap

namespace Ledger

/- What the checks before the credit ask of a transfer. -/
structure InOrder (crypto : Crypto) (l : Ledger) (t : Transfer) : Prop where
  signed : t.verify crypto = true
  nonce : t.nonce = amountAt l.nonces t.sender
  covered : t.amount ≤ amountAt l.balances t.sender

structure PaysItself (l : Ledger) (t : Transfer) : Prop where
  own : t.recipient = t.sender
  large : 2 ^ 64 ≤ (amountAt l.balances t.sender).toNat + t.amount.toNat

/- The batch gets in order to a payment to oneself that does not fit. -/
def Trips (crypto : Crypto) : Ledger → List Transfer → Prop
  | _, [] => False
  | l, t :: rest => InOrder crypto l t ∧ (PaysItself l t ∨ Trips crypto (l.apply t) rest)

def Overflow (e : ChainError) : Prop := ∃ recipient balance amount, e = .balanceOverflow recipient balance amount

section Check
variable {crypto : Crypto} {l : Ledger} {t : Transfer}

theorem validateInOrder (ok : InOrder crypto l t) : l.validateAndApply crypto t =
    match checkedAdd (amountAt l.balances t.recipient) t.amount with
    | none => .error (.balanceOverflow t.recipient (amountAt l.balances t.recipient) t.amount)
    | some _ => .ok (l.apply t) := by
  have covered : ¬ amountAt l.balances t.sender < t.amount := UInt64.not_lt.mpr ok.covered
  have signed : ¬ (!t.verify crypto) = true := by simp [ok.signed]
  exact (if_neg signed).trans ((if_neg (not_not.mpr ok.nonce)).trans (if_neg covered))

theorem validateDisorder (bad : ¬ InOrder crypto l t) : ∃ e, ¬ Overflow e ∧ l.validateAndApply crypto t = .error e := by
  unfold validateAndApply
  split
  case isTrue => exact ⟨_,by simp [Overflow],rfl⟩
  case isFalse signed =>
    dsimp only
    split
    case isTrue => exact ⟨_,by simp [Overflow],rfl⟩
    case isFalse nonce =>
      split
      case isTrue => exact ⟨_,by simp [Overflow],rfl⟩
      case isFalse covered => exact absurd ⟨by simpa using signed,not_not.mp nonce,UInt64.not_lt.mp covered⟩ bad

theorem twoBalances (l : Ledger) {a b : Account} (different : b ≠ a) :
    (amountAt l.balances a).toNat + (amountAt l.balances b).toNat ≤ supply l.balances := by
  have rest := amountLeSupply (l.balances.erase a) b
  have kept : amountAt (l.balances.erase a) b = amountAt l.balances b := by
    rw [amountAt, lookupErase, if_neg different]
    rfl
  rw [kept] at rest
  have split := supplySplit l.balances a
  omega

/- Under a bounded supply only a payment to oneself can be too large to credit. -/
theorem creditFits (bounded : supply l.balances < 2 ^ 64) (ok : InOrder crypto l t) :
    checkedAdd (amountAt l.balances t.recipient) t.amount = none ↔ PaysItself l t := by
  have enough : t.amount.toNat ≤ (amountAt l.balances t.sender).toNat := ok.covered
  rw [checkedAddNone]
  constructor
  · intro full
    by_cases own : t.recipient = t.sender
    · exact ⟨own,own ▸ full⟩
    · have both := twoBalances l own
      omega
  · intro pays
    rw [pays.own]
    exact pays.large

theorem validateTrips (bounded : supply l.balances < 2 ^ 64) (ts : List Transfer) :
    (∃ e, Overflow e ∧ l.validateAll crypto ts = .error e) ↔ Trips crypto l ts := by
  induction ts generalizing l with
  | nil => simp [validateAll, Trips, pure, Except.pure]
  | cons t rest ih =>
    rw [Trips, validateAll, List.foldlM_cons]
    by_cases ok : InOrder crypto l t
    · rw [validateInOrder ok]
      by_cases pays : PaysItself l t
      · rw [(creditFits bounded ok).mpr pays]
        exact ⟨fun _ => ⟨ok,.inl pays⟩,fun _ => ⟨_,⟨_,_,_,rfl⟩,rfl⟩⟩
      · have fits := (creditFits bounded ok).not.mpr pays
        obtain ⟨credited,found⟩ := Option.ne_none_iff_exists'.mp fits
        have applied : l.validateAndApply crypto t = .ok (l.apply t) := by rw [validateInOrder ok, found]
        rw [found]
        have later := ih (l := l.apply t) ((validSupply applied).symm ▸ bounded)
        rw [validateAll] at later
        exact later.trans ⟨fun trips => ⟨ok,.inr trips⟩,fun both => both.2.resolve_left pays⟩
    · obtain ⟨e,plain,failed⟩ := validateDisorder ok
      rw [failed]
      constructor
      · rintro ⟨other,overflow,same⟩
        cases same
        exact absurd overflow plain
      · exact fun both => absurd both.1 ok

end Check
end Ledger

namespace Chain
open Ledger (Trips Overflow)

def Overflows (o : Outcome) : Prop := ∃ recipient balance amount, o = .err (.balanceOverflow recipient balance amount)

/- The block that a chain takes as its next one, whatever its transfers. -/
structure Links (crypto : Crypto) (c : Chain) (block : Block) : Prop where
  fresh : c.height < block.height
  height : block.height = c.height + 1
  link : block.prevHash = c.tipHash
  hash : block.hash = blockHash crypto block.height block.prevHash block.transfers

/- No transfer of the batch is a payment to oneself that does not fit on top of its own balance. -/
def Spares (crypto : Crypto) (c : Chain) : Call → Prop
  | .append transfers => ¬ Trips crypto c.computeState transfers
  | .acceptBlock block => Links crypto c block → ¬ Trips crypto c.computeState block.transfers
  | _ => True

section Calls
variable {crypto : Crypto} {c : Chain}

theorem pushQuiet {block : Block} {l : Ledger} : ¬ Overflows (c.push block l).1 := by
  unfold push
  split <;> simp [Overflows]

theorem appendOverflows {ts : List Transfer} :
    Overflows (c.append crypto ts).1 ↔ ∃ e, Overflow e ∧ c.state.1.validateAll crypto ts = .error e := by
  simp only [append]
  split
  case h_1 e failed => simp [Overflows, Overflow, failed]
  case h_2 l valid => simp [pushQuiet, valid]

theorem acceptOverflows {block : Block} : Overflows (c.acceptBlock crypto block).1 ↔
    Links crypto c block ∧ ∃ e, Overflow e ∧ c.state.1.validateAll crypto block.transfers = .error e := by
  simp only [acceptBlock]
  split
  case isTrue old =>
    have known : ¬ Links crypto c block := fun links => UInt64.not_lt.mpr old links.fresh
    simp only [known, false_and, iff_false]
    split
    · simp [Overflows]
    · split <;> simp [Overflows]
  case isFalse fresh =>
    split
    case isTrue unlinked =>
      have known : ¬ Links crypto c block := by
        intro links
        rcases unlinked with height | link | hash
        · exact height links.height
        · exact link links.link
        · exact hash links.hash
      simp [known, Overflows]
    case isFalse linked =>
      simp only [ne_eq, not_or, not_not] at linked
      have links : Links crypto c block := ⟨UInt64.not_le.mp fresh,linked.1,linked.2.1,linked.2.2⟩
      simp only [links, true_and]
      split
      case h_1 e failed => simp [Overflows, Overflow, failed]
      case h_2 l valid => simp [pushQuiet, valid]

/- One call, in a chain whose ledger is the replayed one and whose supply is bounded. -/
theorem callOverflows (sound : Sound crypto c) (bounded : supply c.genesis < 2 ^ 64) (request : Call) :
    ¬ Overflows (c.call crypto request).1 ↔ Spares crypto c request := by
  have within : supply c.computeState.balances < 2 ^ 64 := (auditSupply sound.audited).symm ▸ bounded
  cases request with
  | append ts => rw [call, appendOverflows, soundState sound, Ledger.validateTrips within, Spares]
  | acceptBlock block => rw [call, acceptOverflows, soundState sound, Ledger.validateTrips within, Spares, not_and]
  | balance account => simp [call, Spares, Overflows]
  | clone => simp [call, Spares, Overflows]

end Calls

/- No call of a run overflows exactly if none of them brings a payment to oneself that
does not fit. -/
theorem overflowsOnlyOnSelfPayment (crypto : Crypto) (genesis : BTreeMap Account Amount)
    (bounded : supply genesis ≤ 2 ^ 64 - 1) (calls : List Call) :
    Machine.along (call crypto) (fun c request => ¬ Overflows (c.call crypto request).1) (new crypto genesis) calls ↔
      Machine.along (call crypto) (Spares crypto) (new crypto genesis) calls := by
  let inv : Chain → Prop := fun c => Sound crypto c ∧ c.genesis = genesis
  have start : inv (new crypto genesis) := ⟨soundNew crypto genesis,rfl⟩
  have preserved : ∀ c request, inv c → inv (c.call crypto request).2 :=
    fun c request both => ⟨soundCall c request both.1,callGenesis c request both.2⟩
  have exact : ∀ c request, inv c → (¬ Overflows (c.call crypto request).1 ↔ Spares crypto c request) := by
    rintro c request ⟨sound,origin⟩
    exact callOverflows sound (by rw [origin]; omega) request
  constructor
  · exact Machine.alongInvariant inv preserved (fun c request kept => (exact c request kept).mp) start
  · exact Machine.alongInvariant inv preserved (fun c request kept => (exact c request kept).mpr) start

/- An account that owns the whole supply pays one unit to itself. -/
def acceptAll : Crypto := ⟨fun _ _ _ => true,fun _ => .replicate 32 0⟩
def hoard : BTreeMap Account Amount := (∅ : BTreeMap Account Amount).insert payment.sender (.ofNat (2 ^ 64 - 1))
def ownUnit : Transfer := { payment with recipient := payment.sender, amount := 1 }

theorem hoardPaysItself : supply hoard ≤ 2 ^ 64 - 1 ∧ ¬ Machine.along (call acceptAll)
    (fun c request => ¬ Overflows (c.call acceptAll request).1) (new acceptAll hoard) [.append [ownUnit]] := by
  have trips : ((new acceptAll hoard).call acceptAll (.append [ownUnit])).1 =
      .err (.balanceOverflow payment.sender (.ofNat (2 ^ 64 - 1)) 1) := by decide +kernel
  refine ⟨by decide +kernel,?_⟩
  intro met
  exact met.1 ⟨_,_,_,trips⟩

theorem paymentFits : Machine.along (call acceptAll) (fun c request => ¬ Overflows (c.call acceptAll request).1)
    (new acceptAll funded) [.append [payment]] := by
  refine (overflowsOnlyOnSelfPayment acceptAll funded (by decide +kernel) [.append [payment]]).mpr ⟨?_,trivial⟩
  rintro ⟨_,pays | none⟩
  · exact absurd pays.own (by decide)
  · exact none

end Chain
end CadsTunnel.Settlement
