import CadsTunnel.MarketMatching

/-! The running tally of units committed against each offer, keyed by the offer's
signature. The tally of a signature is the sum of the units accepted under it, as
a natural number, so it neither wraps nor passes what the offer has. -/
namespace CadsTunnel.Market
open Words OrderedMap ChannelObjects

structure OfferCommitments where
  committed : BTreeMap Signature UInt64

namespace OfferCommitments

def new : OfferCommitments := ⟨∅⟩

def committedAgainst (c : OfferCommitments) (offer : CapacityOffer) : UInt64 := amountAt c.committed offer.signature

def remaining (c : OfferCommitments) (offer : CapacityOffer) : UInt64 :=
  saturatingSub offer.unitsAvailable (c.committedAgainst offer)

def commit (c : OfferCommitments) (offer : CapacityOffer) (units : UInt64) : Bool × OfferCommitments :=
  match checkedAdd (c.committedAgainst offer) units with
  | some total => if total ≤ offer.unitsAvailable then (true,⟨c.committed.insert offer.signature total⟩) else (false,c)
  | none => (false,c)

abbrev Call := CapacityOffer × UInt64

def call (c : OfferCommitments) (request : Call) : Bool × OfferCommitments := c.commit request.1 request.2

def run (calls : List Call) : OfferCommitments := Machine.run call new calls

def accepts (c : OfferCommitments) (request : Call) : List Call := if (c.call request).1 then [request] else []

def accepted (calls : List Call) : List Call := Machine.log call accepts new calls

def unitsUnder (signature : Signature) (requests : List Call) : Nat :=
  (requests.map fun request => if request.1.signature = signature then request.2.toNat else 0).sum

def acceptedUnits (calls : List Call) (offer : CapacityOffer) : Nat :=
  ((accepted calls).map fun request => if request.1 = offer then request.2.toNat else 0).sum

theorem commitCases (c : OfferCommitments) (offer : CapacityOffer) (units : UInt64) :
    (c.commit offer units = (false,c)) ∨
    ∃ total, total.toNat = (c.committedAgainst offer).toNat + units.toNat ∧ total ≤ offer.unitsAvailable ∧
      c.commit offer units = (true,⟨c.committed.insert offer.signature total⟩) := by
  unfold commit
  split
  · rename_i total found
    split
    · rename_i covered
      exact .inr ⟨total,checkedAddSome found,covered,rfl⟩
    · exact .inl rfl
  · exact .inl rfl

theorem commitTally (c : OfferCommitments) (request : Call) (signature : Signature) :
    (amountAt (c.call request).2.committed signature).toNat =
      (amountAt c.committed signature).toNat + unitsUnder signature (c.accepts request) := by
  rcases commitCases c request.1 request.2 with refused | ⟨total,sum,_,done⟩
  · simp [call, accepts, unitsUnder, refused]
  · simp only [call, accepts, done, if_true, unitsUnder, List.map_cons, List.map_nil, List.sum_cons, List.sum_nil,
      amountInsert, Nat.add_zero]
    by_cases same : request.1.signature = signature
    · subst signature
      rw [if_pos rfl, if_pos rfl, sum]
      rfl
    · rw [if_neg (Ne.symm same), if_neg same, Nat.add_zero]

/- The tally of a signature is what was accepted under it. -/
theorem tallyRun (calls : List Call) (signature : Signature) :
    (amountAt (run calls).committed signature).toNat = unitsUnder signature (accepted calls) := by
  induction calls using List.reverseRecOn with
  | nil => simp [run, accepted, Machine.run, Machine.log, new, unitsUnder, amountEmpty]
  | append_singleton calls request ih =>
    rw [run, accepted, Machine.runNext, Machine.logNext]
    rw [run, accepted] at ih
    rw [commitTally, ih]
    simp [unitsUnder]

theorem acceptedMem {calls : List Call} {request : Call} (mem : request ∈ accepted calls) : request ∈ calls := by
  induction calls using List.reverseRecOn with
  | nil => simp [accepted, Machine.log] at mem
  | append_singleton calls last ih =>
    rw [accepted, Machine.logNext] at mem
    rcases List.mem_append.mp mem with old | new
    · exact List.mem_append_left _ (ih old)
    · rw [accepts] at new
      split at new
      · exact List.mem_append_right _ new
      · simp at new

/- The offers behind one signature are one offer. -/
def Determines (calls : List Call) (offer : CapacityOffer) : Prop :=
  ∀ request ∈ calls, request.1.signature = offer.signature → request.1 = offer

theorem committedUnits {calls : List Call} {offer : CapacityOffer} (determines : Determines calls offer) :
    ((run calls).committedAgainst offer).toNat = acceptedUnits calls offer := by
  rw [committedAgainst, tallyRun, unitsUnder, acceptedUnits]
  congr 1
  refine List.map_congr_left ?_
  intro request mem
  by_cases same : request.1 = offer
  · rw [if_pos same, if_pos (congrArg CapacityOffer.signature same)]
  · rw [if_neg same, if_neg (fun signatures => same (determines request (acceptedMem mem) signatures))]

theorem committedBound {calls : List Call} {offer : CapacityOffer} (determines : Determines calls offer) :
    (run calls).committedAgainst offer ≤ offer.unitsAvailable := by
  induction calls using List.reverseRecOn with
  | nil => simp [run, Machine.run, new, committedAgainst, amountEmpty]
  | append_singleton calls request ih =>
    have before := ih fun earlier mem => determines earlier (List.mem_append_left _ mem)
    rw [run, Machine.runNext]
    rcases commitCases (run calls) request.1 request.2 with refused | ⟨total,_,covered,done⟩
    · rw [call, ← run, refused]
      exact before
    · rw [call, ← run, done, committedAgainst, amountInsert]
      split
      · rename_i same
        rwa [determines request (by simp) same.symm] at covered
      · exact before

theorem neverOversold (calls : List Call) (offer : CapacityOffer) (determines : Determines calls offer) :
    let c := run calls
    acceptedUnits calls offer ≤ offer.unitsAvailable.toNat ∧
    (c.committedAgainst offer).toNat = acceptedUnits calls offer ∧
    (c.remaining offer).toNat + (c.committedAgainst offer).toNat = offer.unitsAvailable.toNat ∧
    ∀ request : Call, (c.commit request.1 request.2).1 = false →
      ∀ any, (c.commit request.1 request.2).2.committedAgainst any = c.committedAgainst any := by
  intro c
  have units : (c.committedAgainst offer).toNat = acceptedUnits calls offer := committedUnits determines
  have bound : c.committedAgainst offer ≤ offer.unitsAvailable := committedBound determines
  have small : (c.committedAgainst offer).toNat ≤ offer.unitsAvailable.toNat := bound
  refine ⟨units ▸ small,units,?_,?_⟩
  · rw [remaining, saturatingSubExact bound]
    omega
  · intro request rejected any
    rcases commitCases c request.1 request.2 with refused | ⟨total,_,_,done⟩
    · rw [refused]
    · rw [done] at rejected
      contradiction

/- 60 of 100 units are taken, a second bid for 60 is refused, one for 40 takes the rest. -/
theorem spareSoldOnce :
    let calls : List Call := [(spare,60),(spare,60),(spare,40)]
    acceptedUnits calls spare = 100 ∧ ((run calls).remaining spare).toNat + 100 = 100 := by
  intro calls
  have determines : Determines calls spare := by
    intro request mem _
    rcases List.mem_cons.mp mem with rfl | mem
    · rfl
    · rcases List.mem_cons.mp mem with rfl | mem
      · rfl
      · rw [List.mem_singleton.mp mem]
  obtain ⟨_,units,rest,_⟩ := neverOversold calls spare determines
  have sold : acceptedUnits calls spare = 100 := by decide +kernel
  rw [sold] at units
  rw [units] at rest
  exact ⟨sold,rest⟩

end OfferCommitments
end CadsTunnel.Market
