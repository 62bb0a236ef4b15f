import CadsTunnel.Assignment
import CadsTunnel.Machine
import CadsTunnel.OrderedMap
import CadsTunnel.ChannelObjects

/-! Convening a workflow pipeline: each role's auction is cleared in the order of the
roles, among the valid offers that serve the role and whose provider has no role yet.
Whatever policy picks the winners, a success gives every role a provider of its own.
It does not look ahead, though: an earlier role may take the one provider that a
later role needs. -/
namespace CadsTunnel.Pipeline
open OrderedMap ChannelObjects Assignment

inductive SelectionPolicy where
  | lowestFloor
  | roundRobin
  | leastCalls
  deriving DecidableEq, Repr

structure RequiredRole where
  service : ServiceType
  units : UInt64
  tag : String
  selectionPolicy : Option SelectionPolicy
  deriving DecidableEq, Repr

structure PipelineSpec where
  id : String
  roles : List RequiredRole
  selectionPolicy : SelectionPolicy
  deriving DecidableEq, Repr

inductive PipelineError where
  | unfilledRole (service : ServiceType)
  | empty
  deriving DecidableEq, Repr

structure RoleAssignment where
  service : ServiceType
  provider : Key
  units : UInt64
  price : UInt64
  deriving DecidableEq, Repr

structure SelectionState where
  roundRobinCursor : BTreeMap String Key
  servedCounts : BTreeMap Key UInt64

namespace SelectionState

def default : SelectionState := ⟨∅,∅⟩

def served (state : SelectionState) (provider : Key) : UInt64 := amountAt state.servedCounts provider

end SelectionState

/- The first least element, as an iterator's minimum. -/
def minBy {α : Type} (cmp : α → α → Ordering) (first : α) (rest : List α) : α :=
  rest.foldl (fun best o => if cmp best o = .gt then o else best) first

def byFloor : CapacityOffer → CapacityOffer → Ordering :=
  compareLex (compareOn CapacityOffer.minPrice) (compareOn CapacityOffer.holderPubkey)

instance byFloorTrans : Std.TransCmp byFloor :=
  inferInstanceAs (Std.TransCmp (compareLex (compareOn CapacityOffer.minPrice) (compareOn CapacityOffer.holderPubkey)))

def byCalls (state : SelectionState) : CapacityOffer → CapacityOffer → Ordering :=
  compareLex (compareOn fun o => state.served o.holderPubkey) byFloor

/- The ring of one role's offers, by provider. The sort is stable. -/
def ring (offers : List CapacityOffer) : List CapacityOffer :=
  offers.insertionSort fun a b => (compare a.holderPubkey b.holderPubkey).isLE

/- Picks among the qualifying offers, of which there is a first one. -/
def SelectionPolicy.pick (policy : SelectionPolicy) (roleTag : String) (first : CapacityOffer) (rest : List CapacityOffer)
    (state : SelectionState) : CapacityOffer × SelectionState :=
  match policy with
  | .lowestFloor => (minBy byFloor first rest,state)
  | .roundRobin =>
    let ring := ring (first :: rest)
    let next : Option CapacityOffer := match state.roundRobinCursor[roleTag]? with
      | some last => ring.find? fun o => compare o.holderPubkey last = .gt
      | none => none
    let chosen := next.getD (ring.headD first)
    (chosen,{ state with roundRobinCursor := state.roundRobinCursor.insert roleTag chosen.holderPubkey })
  | .leastCalls =>
    let chosen := minBy (byCalls state) first rest
    (chosen,{ state with servedCounts := state.servedCounts.insert chosen.holderPubkey (state.served chosen.holderPubkey + 1) })

def validOffers (crypto : Crypto) (offers : List CapacityOffer) (now : UnixSeconds) : List CapacityOffer :=
  offers.filter (·.isValid crypto now)

def serves (role : RequiredRole) (o : CapacityOffer) : Bool := o.services.contains role.service && decide (role.units ≤ o.unitsAvailable)

def qualifying (valid : List CapacityOffer) (assigned : List Key) (role : RequiredRole) : List CapacityOffer :=
  valid.filter fun o => serves role o && !assigned.contains o.holderPubkey

def assignment (role : RequiredRole) (o : CapacityOffer) : RoleAssignment := ⟨role.service,o.holderPubkey,role.units,o.minPrice⟩

/- The loop over the roles. The state keeps what the roles before a failure wrote. -/
def fillRoles (policyFor : RequiredRole → SelectionPolicy) (valid : List CapacityOffer) :
    List RequiredRole → List Key → SelectionState → Except PipelineError (List RoleAssignment) × SelectionState
  | [], _, state => (.ok [],state)
  | role :: roles, assigned, state =>
    match qualifying valid assigned role with
    | [] => (.error (.unfilledRole role.service),state)
    | first :: rest =>
      let (o,state) := (policyFor role).pick role.tag first rest state
      let (result,state) := fillRoles policyFor valid roles (assigned ++ [o.holderPubkey]) state
      (result.map (assignment role o :: ·),state)

namespace PipelineSpec

def conveneValid (spec : PipelineSpec) (valid : List CapacityOffer) (policyFor : RequiredRole → SelectionPolicy)
    (state : SelectionState) : Except PipelineError (List RoleAssignment) × SelectionState :=
  if spec.roles.isEmpty then (.error .empty,state) else fillRoles policyFor valid spec.roles [] state

def conveneRoles (crypto : Crypto) (spec : PipelineSpec) (offers : List CapacityOffer) (now : UnixSeconds)
    (policyFor : RequiredRole → SelectionPolicy) (state : SelectionState) :
    Except PipelineError (List RoleAssignment) × SelectionState :=
  spec.conveneValid (validOffers crypto offers now) policyFor state

def convene (crypto : Crypto) (spec : PipelineSpec) (offers : List CapacityOffer) (now : UnixSeconds) :
    Except PipelineError (List RoleAssignment) :=
  (spec.conveneRoles crypto offers now (fun _ => .lowestFloor) .default).1

def conveneWithPolicy (crypto : Crypto) (spec : PipelineSpec) (offers : List CapacityOffer) (now : UnixSeconds)
    (policy : SelectionPolicy) (state : SelectionState) : Except PipelineError (List RoleAssignment) × SelectionState :=
  spec.conveneRoles crypto offers now (fun role => role.selectionPolicy.getD policy) state

end PipelineSpec

/- Which provider a role may go to, as the offers say. -/
structure Serves (valid : List CapacityOffer) (role : RequiredRole) (provider : Key) (o : CapacityOffer) : Prop where
  offered : o ∈ valid
  held : o.holderPubkey = provider
  service : role.service ∈ o.services
  units : role.units ≤ o.unitsAvailable

def Qualifies (valid : List CapacityOffer) (role : RequiredRole) (provider : Key) : Prop := ∃ o, Serves valid role provider o

/- The provider of the cheapest offer among those still free, the smaller key at equal floors. -/
def Cheapest (valid : List CapacityOffer) (taken : List Key) (role : RequiredRole) (provider : Key) : Prop :=
  provider ∉ taken ∧ ∃ o, Serves valid role provider o ∧
    ∀ o', Serves valid role o'.holderPubkey o' → o'.holderPubkey ∉ taken → (byFloor o o').isLE

section Picks

theorem minByMem {α : Type} (cmp : α → α → Ordering) (first : α) (rest : List α) : minBy cmp first rest ∈ first :: rest := by
  induction rest generalizing first with
  | nil => exact List.mem_cons_self
  | cons o rest ih =>
    rw [minBy, List.foldl_cons, ← minBy]
    split
    · exact List.mem_cons_of_mem _ (ih o)
    · rcases List.mem_cons.mp (ih first) with same | later
      · rw [same]; exact List.mem_cons_self
      · exact List.mem_cons_of_mem _ (List.mem_cons_of_mem _ later)

theorem minByLeast {α : Type} {cmp : α → α → Ordering} [Std.TransCmp cmp] (first : α) (rest : List α) :
    ∀ o ∈ first :: rest, (cmp (minBy cmp first rest) o).isLE := by
  induction rest generalizing first with
  | nil =>
    intro o mem
    have same : cmp first first = .eq := Std.ReflCmp.compare_self
    rw [List.mem_singleton.mp mem, minBy, List.foldl_nil, same]
    rfl
  | cons next rest ih =>
    rw [minBy, List.foldl_cons, ← minBy]
    intro o mem
    split
    case isTrue above =>
      have least := ih next next List.mem_cons_self
      rcases List.mem_cons.mp mem with rfl | later
      · exact Std.TransCmp.isLE_trans least (by rw [Std.OrientedCmp.lt_of_gt above]; rfl)
      · exact ih next o later
    case isFalse below =>
      have least := ih first first List.mem_cons_self
      rcases List.mem_cons.mp mem with rfl | later
      · exact least
      · rcases List.mem_cons.mp later with rfl | later
        · exact Std.TransCmp.isLE_trans least (by cases order : cmp first o <;> simp_all)
        · exact ih first o (List.mem_cons_of_mem _ later)

theorem ringMem {offers : List CapacityOffer} {o : CapacityOffer} : o ∈ ring offers ↔ o ∈ offers := List.mem_insertionSort _

theorem pickMem (policy : SelectionPolicy) (tag : String) (first : CapacityOffer) (rest : List CapacityOffer) (state : SelectionState) :
    (policy.pick tag first rest state).1 ∈ first :: rest := by
  cases policy with
  | lowestFloor => exact minByMem _ first rest
  | leastCalls => exact minByMem _ first rest
  | roundRobin =>
    simp only [SelectionPolicy.pick]
    have head : (ring (first :: rest)).headD first ∈ first :: rest := by
      cases ordered : ring (first :: rest) with
      | nil => exact List.mem_cons_self
      | cons lead others => exact ringMem.mp (by rw [ordered]; exact List.mem_cons_self)
    split
    · rename_i last _
      cases found : (ring (first :: rest)).find? fun o => compare o.holderPubkey last = .gt with
      | none => exact head
      | some chosen => exact ringMem.mp (List.mem_of_find?_eq_some found)
    · exact head

theorem qualifyingMem {valid : List CapacityOffer} {assigned : List Key} {role : RequiredRole} {o : CapacityOffer} :
    o ∈ qualifying valid assigned role ↔ Serves valid role o.holderPubkey o ∧ o.holderPubkey ∉ assigned := by
  simp only [qualifying, serves, List.mem_filter, Bool.and_eq_true, List.contains_iff_mem, decide_eq_true_eq,
    Bool.not_eq_true', ← Bool.not_eq_true]
  constructor
  · rintro ⟨offered,⟨service,units⟩,free⟩
    exact ⟨⟨offered,rfl,service,units⟩,by simpa using free⟩
  · rintro ⟨serves,free⟩
    exact ⟨serves.offered,⟨serves.service,serves.units⟩,by simpa using free⟩

theorem cheapestPick {valid : List CapacityOffer} {assigned : List Key} {role : RequiredRole} {first : CapacityOffer}
    {rest : List CapacityOffer} (found : qualifying valid assigned role = first :: rest) :
    Cheapest valid assigned role (minBy byFloor first rest).holderPubkey := by
  obtain ⟨serves,free⟩ := qualifyingMem.mp (found ▸ minByMem byFloor first rest)
  refine ⟨free,_,serves,?_⟩
  intro other served unassigned
  exact minByLeast first rest other (found ▸ qualifyingMem.mpr ⟨served,unassigned⟩)

theorem byFloorEq {a b : CapacityOffer} (same : byFloor a b = .eq) : a.holderPubkey = b.holderPubkey := by
  rw [byFloor, compareLex, Ordering.then_eq_eq] at same
  exact Std.compare_eq_iff_eq.mp same.2

theorem cheapestUnique {valid : List CapacityOffer} {taken : List Key} {role : RequiredRole} {a b : Key}
    (left : Cheapest valid taken role a) (right : Cheapest valid taken role b) : a = b := by
  obtain ⟨freeA,o,servesA,leastA⟩ := left
  obtain ⟨freeB,p,servesB,leastB⟩ := right
  obtain rfl := servesA.held
  obtain rfl := servesB.held
  exact byFloorEq (Std.OrientedCmp.isLE_antisymm (leastA p servesB freeB) (leastB o servesA freeA))

end Picks

section Filling
variable {policyFor : RequiredRole → SelectionPolicy} {valid : List CapacityOffer}

/- One entry for each role, from an offer that serves it. -/
def Entries (valid : List CapacityOffer) : List RequiredRole → List RoleAssignment → Prop :=
  List.Forall₂ fun role a => ∃ o, Serves valid role a.provider o ∧ a = assignment role o

theorem fillNext {role : RequiredRole} {roles : List RequiredRole} {assigned : List Key} {state : SelectionState}
    {first : CapacityOffer} {rest : List CapacityOffer} (found : qualifying valid assigned role = first :: rest) :
    (fillRoles policyFor valid (role :: roles) assigned state).1 =
      (fillRoles policyFor valid roles (assigned ++ [((policyFor role).pick role.tag first rest state).1.holderPubkey])
        ((policyFor role).pick role.tag first rest state).2).1.map
          (assignment role ((policyFor role).pick role.tag first rest state).1 :: ·) := by
  rw [fillRoles]
  split
  · rename_i none
    rw [none] at found
    cases found
  · rename_i some
    rw [some] at found
    cases found
    rfl

/- What a success is built from: an entry for the first role, picked among its qualifying
offers, and a success for the others without that provider. -/
theorem fillCons {role : RequiredRole} {roles : List RequiredRole} {assigned : List Key} {state : SelectionState}
    {result : List RoleAssignment} (ok : (fillRoles policyFor valid (role :: roles) assigned state).1 = .ok result) :
    ∃ first rest later, qualifying valid assigned role = first :: rest ∧
      (fillRoles policyFor valid roles (assigned ++ [((policyFor role).pick role.tag first rest state).1.holderPubkey])
        ((policyFor role).pick role.tag first rest state).2).1 = .ok later ∧
      result = assignment role ((policyFor role).pick role.tag first rest state).1 :: later := by
  cases found : qualifying valid assigned role with
  | nil => simp [fillRoles, found] at ok
  | cons first rest =>
    rw [fillNext found, Machine.mapOk] at ok
    obtain ⟨later,done,same⟩ := ok
    exact ⟨first,rest,later,rfl,done,same.symm⟩

theorem fillEntries {roles : List RequiredRole} {assigned : List Key} {state : SelectionState} {result : List RoleAssignment}
    (ok : (fillRoles policyFor valid roles assigned state).1 = .ok result) :
    Entries valid roles result ∧
      Chain (fun taken role a => Qualifies valid role a ∧ a ∉ taken) assigned roles (result.map RoleAssignment.provider) := by
  induction roles generalizing assigned state result with
  | nil =>
    cases ok
    exact ⟨.nil,.nil⟩
  | cons role roles ih =>
    obtain ⟨first,rest,later,found,done,rfl⟩ := fillCons ok
    obtain ⟨entries,chain⟩ := ih done
    obtain ⟨serves,free⟩ := qualifyingMem.mp (found ▸ pickMem (policyFor role) role.tag first rest state)
    exact ⟨.cons ⟨_,serves,rfl⟩ entries,.cons ⟨⟨_,serves⟩,free⟩ chain⟩

theorem fillAssigns {roles : List RequiredRole} {assigned : List Key} {state : SelectionState} {result : List RoleAssignment}
    (ok : (fillRoles policyFor valid roles assigned state).1 = .ok result) :
    Assigns (Qualifies valid) assigned roles (result.map RoleAssignment.provider) :=
  chainAssigns (fun _ _ _ picked => picked) (fillEntries ok).2

/- Where the roles are nested, no pick is wrong. -/
theorem fillComplete {roles : List RequiredRole} (nested : Nested (Qualifies valid) roles) {assigned agents : List Key}
    (possible : Assigns (Qualifies valid) assigned roles agents) (state : SelectionState) :
    ∃ result, (fillRoles policyFor valid roles assigned state).1 = .ok result := by
  induction roles generalizing assigned agents state with
  | nil => exact ⟨[],rfl⟩
  | cons role roles ih =>
    obtain ⟨inner,later⟩ := List.pairwise_cons.mp nested
    obtain ⟨agent,others,rfl⟩ : ∃ agent others, agents = agent :: others := by
      cases possible.fit with
      | cons _ _ => exact ⟨_,_,rfl⟩
    obtain ⟨o,serves⟩ : Qualifies valid role agent := by
      cases possible.fit with
      | cons head _ => exact head
    have offered : o ∈ qualifying valid assigned role := by
      rw [qualifyingMem, serves.held]
      exact ⟨serves,possible.free agent List.mem_cons_self⟩
    cases found : qualifying valid assigned role with
    | nil => rw [found] at offered; cases offered
    | cons first rest =>
      obtain ⟨picked,free⟩ := qualifyingMem.mp (found ▸ pickMem (policyFor role) role.tag first rest state)
      obtain ⟨agents',possible'⟩ := assignsExchange possible ⟨_,picked⟩ free inner
      obtain ⟨result,ok⟩ := ih later possible' _
      exact ⟨_,by rw [fillNext found, ok]; rfl⟩

theorem fillCheapest {roles : List RequiredRole} {assigned providers : List Key} {state : SelectionState} :
    (∃ result, (fillRoles (fun _ => .lowestFloor) valid roles assigned state).1 = .ok result ∧
      result.map RoleAssignment.provider = providers) ↔ Chain (Cheapest valid) assigned roles providers := by
  induction roles generalizing assigned providers state with
  | nil =>
    constructor
    · rintro ⟨result,ok,rfl⟩
      cases ok
      exact .nil
    · intro chain
      cases chain
      exact ⟨[],rfl,rfl⟩
  | cons role roles ih =>
    constructor
    · rintro ⟨result,ok,rfl⟩
      obtain ⟨first,rest,later,found,done,rfl⟩ := fillCons ok
      exact .cons (cheapestPick found) (ih.mp ⟨later,done,rfl⟩)
    · intro chain
      cases chain with
      | @cons _ _ _ chosen others picked chain =>
        have ⟨free,o,serves,_⟩ := picked
        have offered : o ∈ qualifying valid assigned role := qualifyingMem.mpr ⟨serves.held ▸ serves,serves.held ▸ free⟩
        cases found : qualifying valid assigned role with
        | nil => rw [found] at offered; cases offered
        | cons first rest =>
          obtain rfl := cheapestUnique picked (cheapestPick found)
          obtain ⟨later,done,rfl⟩ := ih.mpr chain
          exact ⟨_,by rw [fillNext found]; exact congrArg (Except.map _) done,rfl⟩

end Filling

/- Convening never succeeds without a provider of its own for each role. It succeeds
exactly if the roles, one after another, find a cheapest free provider; where no
earlier role can take a provider from a later one that it could spare, this is whenever
there is an assignment at all. -/
theorem conveneGreedy (crypto : Crypto) (spec : PipelineSpec) (offers : List CapacityOffer) (now : UnixSeconds) :
    let valid := validOffers crypto offers now
    (∀ result, spec.convene crypto offers now = .ok result →
      Entries valid spec.roles result ∧ Assigns (Qualifies valid) [] spec.roles (result.map RoleAssignment.provider)) ∧
    (∀ providers, (∃ result, spec.convene crypto offers now = .ok result ∧ result.map RoleAssignment.provider = providers) ↔
      spec.roles ≠ [] ∧ Chain (Cheapest valid) [] spec.roles providers) ∧
    (Nested (Qualifies valid) spec.roles → ((∃ result, spec.convene crypto offers now = .ok result) ↔
      spec.roles ≠ [] ∧ ∃ providers, Assigns (Qualifies valid) [] spec.roles providers)) := by
  intro valid
  by_cases none : spec.roles = []
  · have refused : spec.convene crypto offers now = .error .empty := by
      simp [PipelineSpec.convene, PipelineSpec.conveneRoles, PipelineSpec.conveneValid, none]
    rw [refused]
    simp [none]
  · have filled : spec.convene crypto offers now = (fillRoles (fun _ => .lowestFloor) valid spec.roles [] .default).1 := by
      simp [PipelineSpec.convene, PipelineSpec.conveneRoles, PipelineSpec.conveneValid, none, valid]
    rw [filled]
    refine ⟨fun result ok => ⟨(fillEntries ok).1,fillAssigns ok⟩,?_,?_⟩
    · intro providers
      rw [fillCheapest, and_iff_right none]
    · intro nested
      rw [and_iff_right none]
      exact ⟨fun ⟨result,ok⟩ => ⟨_,fillAssigns ok⟩,fun ⟨_,possible⟩ => fillComplete nested possible .default⟩

/- The cheaper of two coders is also the only reviewer; the pipeline asks for the coder first. -/
def anySignature : Crypto := ⟨fun _ _ _ => true,fun _ => .replicate 32 0⟩
def codeAndReview : PipelineSpec := ⟨"build",[⟨.codeGeneration,1,"code",none⟩,⟨.securityReview,1,"review",none⟩],.lowestFloor⟩
def reviewer : CapacityOffer :=
  ⟨.replicate 32 1,.cloudApiQuota,["m"],20,10,"cur",0,1000,[.codeGeneration,.securityReview],.replicate 64 0⟩
def coder : CapacityOffer := ⟨.replicate 32 2,.cloudApiQuota,["m"],20,50,"cur",0,1000,[.codeGeneration],.replicate 64 0⟩

theorem reviewerTakenFirst :
    codeAndReview.convene anySignature [reviewer,coder] 100 = .error (.unfilledRole .securityReview) ∧
    Assigns (Qualifies (validOffers anySignature [reviewer,coder] 100)) [] codeAndReview.roles
      [coder.holderPubkey,reviewer.holderPubkey] := by
  have both : validOffers anySignature [reviewer,coder] 100 = [reviewer,coder] := by decide +kernel
  refine ⟨by decide +kernel,by decide,by simp,?_⟩
  rw [both]
  exact .cons ⟨coder,by simp,rfl,by decide,by decide⟩ (.cons ⟨reviewer,by simp,rfl,by decide,by decide⟩ .nil)

end CadsTunnel.Pipeline
