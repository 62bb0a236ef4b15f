import CadsTunnel.RateLimit
import CadsTunnel.MarketCommitments

/-! The auction an agent runs over its authenticated channels: a bid is checked,
charged to the caller's rate budget, cleared against the agent's one offer and
booked against what the offer has left. Nothing remembers which bids have bought
already, so a bid that is sent again, by anyone, buys again under the same
reference as long as its caller has budget and the offer has units. -/
namespace CadsTunnel.Auction
open ChannelObjects OrderedMap RateLimit Market

structure Terms where
  offer : CapacityOffer
  maxBidsPerWindow : UInt32
  windowSecs : UInt64

structure Registry where
  limiter : KeyedRateLimiter Key
  commitments : OfferCommitments

def maxTrackedRateLimitPeers : Nat := 100000

def registerAuctionTools (t : Terms) : Registry where
  limiter := .withMaxTrackedKeys t.maxBidsPerWindow maxTrackedRateLimitPeers
  commitments := .new

/- The caller as the channel knows it, the decoded `bid` argument and the agent's own clock. -/
structure BidCall where
  peer : Option Key
  bid : Option (Except String CapacityBid)
  now : UnixSeconds

def windowOf (t : Terms) (now : UnixSeconds) : UInt64 := if t.windowSecs = 0 then 0 else now / t.windowSecs

def auctionBid (crypto : Crypto) (t : Terms) (r : Registry) (call : BidCall) : Except String CapacityMatch × Registry :=
  match call.peer with
  | none => (.error "auction/bid requires an authenticated channel peer",r)
  | some peer =>
    match call.bid with
    | none => (.error "missing `bid` object",r)
    | some (.error e) => (.error ("malformed bid: " ++ e),r)
    | some (.ok bid) =>
      if !bid.isValid crypto call.now then (.error "bid signature invalid or expired",r)
      else
        let (allowed,limiter) := r.limiter.allow peer (windowOf t call.now)
        let r := { r with limiter := limiter }
        if !allowed then (.error "bid rate limit exceeded for this consumer — slow down",r)
        else match matchOffer crypto t.offer bid call.now with
          | some m =>
            let (booked,commitments) := r.commitments.commit t.offer m.units
            let r := { r with commitments := commitments }
            if booked then (.ok m,r)
            else (.error "offer capacity already committed to prior matches — not enough units remain",r)
          | none => (.error "bid does not clear against this offer (kind/model/units/floor/expiry)",r)

def run (crypto : Crypto) (t : Terms) (calls : List BidCall) : Registry :=
  Machine.run (auctionBid crypto t) (registerAuctionTools t) calls

/- The bid a call buys with, and the match it is handed. -/
def sale (crypto : Crypto) (t : Terms) (r : Registry) (call : BidCall) : List (CapacityBid × CapacityMatch) :=
  match call.bid, (auctionBid crypto t r call).1 with
  | some (.ok bid), .ok m => [(bid,m)]
  | _, _ => []

def sales (crypto : Crypto) (t : Terms) (calls : List BidCall) : List (CapacityBid × CapacityMatch) :=
  Machine.log (auctionBid crypto t) (sale crypto t) (registerAuctionTools t) calls

def unitsSold (sold : List (CapacityBid × CapacityMatch)) : Nat := (sold.map fun s => s.2.units.toNat).sum

/- What a call needs to buy: it looks at the caller's budget and the units left, and at
no earlier bid. -/
structure Buys (crypto : Crypto) (t : Terms) (r : Registry) (call : BidCall) (bid : CapacityBid) (m : CapacityMatch) : Prop where
  carries : call.bid = some (.ok bid)
  valid : bid.isValid crypto call.now = true
  budget : ∃ peer, call.peer = some peer ∧ (r.limiter.allow peer (windowOf t call.now)).1 = true
  clears : matchOffer crypto t.offer bid call.now = some m
  covered : (r.commitments.committedAgainst t.offer).toNat + m.units.toNat ≤ t.offer.unitsAvailable.toNat

/- The two bids are one order: they agree in every term that the match reference covers. -/
structure SameOrder (a b : CapacityBid) : Prop where
  bidder : a.bidder = b.bidder
  kind : a.kind = b.kind
  model : a.model = b.model
  units : a.units = b.units
  totalPrice : a.totalPrice = b.totalPrice
  issuedAt : a.issuedAt = b.issuedAt

section Steps
variable {crypto : Crypto} {t : Terms} {r : Registry} {call : BidCall}

theorem commitCovered {c : OfferCommitments} {offer : CapacityOffer} {units : UInt64} :
    (c.commit offer units).1 = true ↔ (c.committedAgainst offer).toNat + units.toNat ≤ offer.unitsAvailable.toNat := by
  have large := offer.unitsAvailable.toNat_lt
  unfold OfferCommitments.commit
  split
  case h_1 total found =>
    rw [← Words.checkedAddSome found, ← UInt64.le_iff_toNat_le]
    split <;> simp_all
  case h_2 found =>
    have wraps := Words.checkedAddNone.mp found
    simp only [Bool.false_eq_true, false_iff]
    omega

theorem refusedUnchanged {c : OfferCommitments} {offer : CapacityOffer} {units : UInt64} (refused : (c.commit offer units).1 = false) :
    (c.commit offer units).2 = c := by
  rcases c.commitCases offer units with same | ⟨_,_,_,done⟩
  · rw [same]
  · rw [done] at refused
    cases refused

/- Either the call meets everything and buys, or it is an error and nothing is booked. -/
theorem bidCases : (∃ e, (auctionBid crypto t r call).1 = .error e) ∧ (auctionBid crypto t r call).2.commitments = r.commitments ∧
      (¬ ∃ bid m, Buys crypto t r call bid m) ∨
    ∃ bid m, Buys crypto t r call bid m ∧ (auctionBid crypto t r call).1 = .ok m ∧
      (auctionBid crypto t r call).2.commitments = (r.commitments.commit t.offer m.units).2 := by
  by_cases buys : ∃ bid m, Buys crypto t r call bid m
  · obtain ⟨bid,m,buys⟩ := buys
    obtain ⟨peer,known,allowed⟩ := buys.budget
    have booked := commitCovered.mpr buys.covered
    refine .inr ⟨bid,m,buys,?_,?_⟩ <;> simp [auctionBid, known, buys.carries, buys.valid, allowed, buys.clears, booked]
  · refine .inl ?_
    unfold auctionBid
    split
    case h_1 => exact ⟨⟨_,rfl⟩,rfl,buys⟩
    case h_2 peer known =>
      split
      case h_1 => exact ⟨⟨_,rfl⟩,rfl,buys⟩
      case h_2 => exact ⟨⟨_,rfl⟩,rfl,buys⟩
      case h_3 bid carries =>
        split
        case isTrue => exact ⟨⟨_,rfl⟩,rfl,buys⟩
        case isFalse valid =>
          dsimp only
          split
          case isTrue => exact ⟨⟨_,rfl⟩,rfl,buys⟩
          case isFalse allowed =>
            split
            case h_2 => exact ⟨⟨_,rfl⟩,rfl,buys⟩
            case h_1 m clears =>
              split
              case isTrue booked =>
                refine absurd ⟨bid,m,carries,by simpa using valid,⟨peer,known,by simpa using allowed⟩,clears,?_⟩ buys
                exact commitCovered.mp booked
              case isFalse refused =>
                exact ⟨⟨_,rfl⟩,refusedUnchanged (Bool.eq_false_iff.mpr refused),buys⟩

theorem buysIff : (∃ m, (auctionBid crypto t r call).1 = .ok m) ↔ ∃ bid m, Buys crypto t r call bid m := by
  rcases @bidCases crypto t r call with ⟨⟨e,refused⟩,_,none⟩ | ⟨bid,m,buys,answer,_⟩
  · simp [refused, none]
  · exact ⟨fun _ => ⟨bid,m,buys⟩,fun _ => ⟨m,answer⟩⟩

theorem commitBooks {c : OfferCommitments} {offer : CapacityOffer} {units : UInt64}
    (covered : (c.committedAgainst offer).toNat + units.toNat ≤ offer.unitsAvailable.toNat) :
    ((c.commit offer units).2.committedAgainst offer).toNat = (c.committedAgainst offer).toNat + units.toNat := by
  rcases c.commitCases offer units with same | ⟨total,sum,_,done⟩
  · have booked := commitCovered.mpr covered
    rw [same] at booked
    cases booked
  · rw [done, OfferCommitments.committedAgainst, amountInsert, if_pos rfl, sum]

theorem saleCases : sale crypto t r call = [] ∧ (auctionBid crypto t r call).2.commitments = r.commitments ∨
    ∃ bid m, Buys crypto t r call bid m ∧ sale crypto t r call = [(bid,m)] ∧
      ((auctionBid crypto t r call).2.commitments.committedAgainst t.offer).toNat =
        (r.commitments.committedAgainst t.offer).toNat + m.units.toNat := by
  rcases @bidCases crypto t r call with ⟨⟨e,refused⟩,kept,_⟩ | ⟨bid,m,buys,answer,booked⟩
  · refine .inl ⟨?_,kept⟩
    rw [sale, refused]
    split <;> try contradiction
    rfl
  · refine .inr ⟨bid,m,buys,?_,?_⟩
    · rw [sale, answer, buys.carries]
    · rw [booked, commitBooks buys.covered]

end Steps

section Runs
variable {crypto : Crypto} {t : Terms} {calls : List BidCall}

theorem salesNext (call : BidCall) :
    sales crypto t (calls ++ [call]) = sales crypto t calls ++ sale crypto t (run crypto t calls) call :=
  Machine.logNext _ _ calls call

/- What the registry has booked is what it has sold. -/
theorem bookedSold (calls : List BidCall) :
    ((run crypto t calls).commitments.committedAgainst t.offer).toNat = unitsSold (sales crypto t calls) ∧
      unitsSold (sales crypto t calls) ≤ t.offer.unitsAvailable.toNat := by
  induction calls using List.reverseRecOn with
  | nil => exact ⟨rfl,Nat.zero_le _⟩
  | append_singleton calls call ih =>
    obtain ⟨booked,bounded⟩ := ih
    have next : run crypto t (calls ++ [call]) = (auctionBid crypto t (run crypto t calls) call).2 := Machine.runNext _ _ _
    rw [salesNext, next]
    rcases @saleCases crypto t (run crypto t calls) call with ⟨none,kept⟩ | ⟨bid,m,buys,one,charged⟩
    · rw [none, kept, List.append_nil]
      exact ⟨booked,bounded⟩
    · have more : unitsSold (sales crypto t calls ++ [(bid,m)]) = unitsSold (sales crypto t calls) + m.units.toNat := by
        simp [unitsSold]
      have covered := buys.covered
      rw [one, more, charged, ← booked]
      exact ⟨rfl,covered⟩

theorem soldRef {sold : CapacityBid × CapacityMatch} (mem : sold ∈ sales crypto t calls) :
    sold.2.matchRef = crypto.sha256 (dealPreimage t.offer sold.1) := by
  induction calls using List.reverseRecOn with
  | nil => cases mem
  | append_singleton calls call ih =>
    rw [salesNext, List.mem_append] at mem
    rcases mem with earlier | last
    · exact ih earlier
    · rcases @saleCases crypto t (run crypto t calls) call with ⟨none,_⟩ | ⟨bid,m,buys,one,_⟩
      · rw [none] at last
        cases last
      · rw [one, List.mem_singleton] at last
        rw [last]
        exact (matchCases buys.clears).2

end Runs

theorem sameOrderIff {offer : CapacityOffer} {a b : CapacityBid} : dealPreimage offer a = dealPreimage offer b ↔ SameOrder a b := by
  rw [hashedIff]
  constructor
  · intro hashed
    exact ⟨hashed.consumer,hashed.kind,hashed.model,hashed.units,hashed.totalPrice,hashed.bidIssuedAt⟩
  · intro same
    exact ⟨rfl,same.bidder,same.kind,same.model,same.units,same.totalPrice,same.issuedAt,rfl⟩

/- No run sells more units than the offer has. Two sales share their reference exactly
if they are one order, and whether a bid buys depends on the caller's budget and on the
units left, not on whether it has bought before. -/
theorem auctionCapacity (crypto : Crypto) (t : Terms) (calls : List BidCall)
    (collisionFree : Set.InjOn crypto.sha256 {raw | ∃ sold ∈ sales crypto t calls, raw = dealPreimage t.offer sold.1}) :
    unitsSold (sales crypto t calls) ≤ t.offer.unitsAvailable.toNat ∧
    (∀ a ∈ sales crypto t calls, ∀ b ∈ sales crypto t calls, a.2.matchRef = b.2.matchRef ↔ SameOrder a.1 b.1) ∧
    ∀ call, (∃ m, (auctionBid crypto t (run crypto t calls) call).1 = .ok m) ↔
      ∃ bid m peer, call.peer = some peer ∧ call.bid = some (.ok bid) ∧ bid.isValid crypto call.now = true ∧
        ((run crypto t calls).limiter.allow peer (windowOf t call.now)).1 = true ∧
        matchOffer crypto t.offer bid call.now = some m ∧
        unitsSold (sales crypto t calls) + m.units.toNat ≤ t.offer.unitsAvailable.toNat := by
  obtain ⟨booked,bounded⟩ := @bookedSold crypto t calls
  refine ⟨bounded,?_,?_⟩
  · intro a soldA b soldB
    rw [soldRef soldA, soldRef soldB, ← sameOrderIff]
    exact ⟨fun same => collisionFree ⟨a,soldA,rfl⟩ ⟨b,soldB,rfl⟩ same,congrArg crypto.sha256⟩
  · intro call
    rw [buysIff]
    constructor
    · rintro ⟨bid,m,buys⟩
      obtain ⟨peer,known,allowed⟩ := buys.budget
      exact ⟨bid,m,peer,known,buys.carries,buys.valid,allowed,buys.clears,booked ▸ buys.covered⟩
    · rintro ⟨bid,m,peer,known,carries,valid,allowed,clears,covered⟩
      exact ⟨bid,m,carries,valid,⟨peer,known,allowed⟩,clears,booked.symm ▸ covered⟩

/- One bid of 10 units, sent by its bidder and forwarded by another peer. -/
def spareTerms : Terms := ⟨spare,10,60⟩
def forwarded : List BidCall := [⟨some (.replicate 32 2),some (.ok order),1500⟩,⟨some (.replicate 32 3),some (.ok order),1501⟩]

theorem orderBoughtTwice : ¬ ((sales tailCrypto spareTerms forwarded).map fun sold => sold.2.matchRef).Nodup := by
  have refs : ((sales tailCrypto spareTerms forwarded).map fun sold => sold.2.matchRef) =
      List.replicate 2 (tailCrypto.sha256 (dealPreimage spare order)) := by decide +kernel
  rw [refs]
  simp

theorem forwardedCapacity : unitsSold (sales tailCrypto spareTerms forwarded) ≤ 100 := by
  have orders : (sales tailCrypto spareTerms forwarded).map Prod.fst = [order,order] := by decide +kernel
  have only : ∀ sold ∈ sales tailCrypto spareTerms forwarded, sold.1 = order := by
    intro sold mem
    have named := List.mem_map_of_mem (f := Prod.fst) mem
    rw [orders] at named
    simpa using named
  refine (auctionCapacity tailCrypto spareTerms forwarded ?_).1
  rintro _ ⟨a,soldA,rfl⟩ _ ⟨b,soldB,rfl⟩ _
  rw [only a soldA, only b soldB]

end CadsTunnel.Auction
