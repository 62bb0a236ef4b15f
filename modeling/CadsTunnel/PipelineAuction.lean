import CadsTunnel.PipelineSelection

/-! The auction view of a clear. It is rebuilt from the offers by the winner's key, so it
marks every offer the winner has for the role: one mark and the assignment's own terms
exactly if the winner has one offer that serves the role. -/
namespace CadsTunnel.Pipeline
open OrderedMap ChannelObjects Assignment

/- The view marks one bid, made from an offer of the assigned provider at the assigned price. -/
def Marks (valid : List CapacityOffer) (label : Key → String) (a : RoleAssignment) (view : RoleAuctionView) : Prop :=
  ∃ o ∈ valid, o.holderPubkey = a.provider ∧ o.minPrice = a.price ∧
    view.bids.filter RoleBidView.win = [⟨label o.holderPubkey,o.unitsAvailable,o.minPrice,true⟩]

/- A provider's offers for a role, each as often as it was made. -/
def offersFor (valid : List CapacityOffer) (role : RequiredRole) (provider : Key) : List CapacityOffer :=
  valid.filter fun o => serves role o && decide (o.holderPubkey = provider)

/- The winners of a clear that fills every role. -/
inductive Clears (policyFor : RequiredRole → SelectionPolicy) (valid : List CapacityOffer) :
    SelectionState → List Key → List RequiredRole → List (RequiredRole × Key) → Prop
  | nil {state : SelectionState} {taken : List Key} : Clears policyFor valid state taken [] []
  | cons {state : SelectionState} {taken : List Key} {role : RequiredRole} {roles : List RequiredRole} {k : Key}
      {winners : List (RequiredRole × Key)} : Wins valid taken state (policyFor role) role k →
      Clears policyFor valid (state.after (policyFor role) role.tag k) (taken ++ [k]) roles winners →
      Clears policyFor valid state taken (role :: roles) ((role,k) :: winners)

section Views
variable {valid : List CapacityOffer} {label : Key → String} {role : RequiredRole} {a : RoleAssignment}

theorem servesMem {o : CapacityOffer} {provider : Key} : o ∈ offersFor valid role provider ↔ Serves valid role provider o := by
  simp only [offersFor, serves, List.mem_filter, Bool.and_eq_true, List.contains_iff_mem, decide_eq_true_eq]
  constructor
  · rintro ⟨offered,⟨service,units⟩,held⟩
    exact ⟨offered,held,service,units⟩
  · intro serves
    exact ⟨serves.offered,⟨serves.service,serves.units⟩,serves.held⟩

/- The marked bids are the provider's own, in some order. -/
theorem markedBids : ((roleView valid label role a).bids.filter RoleBidView.win).Perm
    ((offersFor valid role a.provider).map (bidView label a.provider)) := by
  have sorted : (roleView valid label role a).bids.Perm ((valid.filter (serves role)).map (bidView label a.provider)) :=
    List.perm_insertionSort _ _
  refine (sorted.filter RoleBidView.win).trans ?_
  rw [List.filter_map, List.filter_filter, offersFor]
  exact List.Perm.of_eq (congrArg _ (List.filter_congr fun o _ => Bool.and_comm _ _))

/- If the assignment is from an offer that serves the role, the view marks at least one bid,
and one that agrees with it exactly if the provider has no other offer for the role. -/
theorem marksSingle {o : CapacityOffer} (serves : Serves valid role a.provider o) (price : o.minPrice = a.price) :
    Marks valid label a (roleView valid label role a) ↔ (offersFor valid role a.provider).length = 1 := by
  have marked : ((roleView valid label role a).bids.filter RoleBidView.win).Perm _ := markedBids
  constructor
  · rintro ⟨o',_,_,_,single⟩
    rw [single] at marked
    simpa using marked.length_eq.symm
  · intro single
    obtain ⟨o',only⟩ := List.length_eq_one_iff.mp single
    have same : o = o' := by simpa [only] using servesMem.mpr serves
    subst same
    refine ⟨o,serves.offered,serves.held,price,?_⟩
    rw [only] at marked
    have listed := List.perm_singleton.mp marked
    rw [listed, bidView, decide_eq_true serves.held]

end Views

section Clearing
variable {policyFor : RequiredRole → SelectionPolicy} {valid : List CapacityOffer}

theorem fillClears {roles : List RequiredRole} {taken : List Key} {state : SelectionState} {result : List RoleAssignment}
    (ok : (fillRoles policyFor valid roles taken state).1 = .ok result) :
    Clears policyFor valid state taken roles (roles.zip (result.map RoleAssignment.provider)) := by
  induction roles generalizing taken state result with
  | nil => exact .nil
  | cons role roles ih =>
    obtain ⟨first,rest,later,found,done,rfl⟩ := fillCons ok
    have wins : Wins valid taken state (policyFor role) role _ := pickWins found (policyFor role)
    rw [pickAfter] at done
    exact .cons wins (ih done)

theorem clearsUnique {roles : List RequiredRole} {taken : List Key} {state : SelectionState} {one other : List (RequiredRole × Key)}
    (left : Clears policyFor valid state taken roles one) (right : Clears policyFor valid state taken roles other) : one = other := by
  induction left generalizing other with
  | nil =>
    cases right
    rfl
  | cons wins _ ih =>
    cases right with
    | cons wins' rest =>
      cases winsUnique wins wins'
      rw [ih rest]

/- Where the policies find a winner for each role, the clear fills them all. -/
theorem clearsFilled {roles : List RequiredRole} {taken : List Key} {state : SelectionState} {winners : List (RequiredRole × Key)}
    (clears : Clears policyFor valid state taken roles winners) : ∃ result, (fillRoles policyFor valid roles taken state).1 = .ok result := by
  induction clears with
  | nil => exact ⟨[],rfl⟩
  | cons wins _ ih =>
    obtain ⟨o,_,filled⟩ := fillFirst wins
    obtain ⟨later,done⟩ := ih
    exact ⟨_,by rw [filled, done]; rfl⟩

end Clearing

/- Each role's view marks the role's assignment. -/
def Shows (valid : List CapacityOffer) (label : Key → String) (roles : List RequiredRole) (assignments : List RoleAssignment)
    (views : List RoleAuctionView) : Prop :=
  views.map RoleAuctionView.role = roles.map RequiredRole.tag ∧ List.Forall₂ (Marks valid label) assignments views

theorem viewsShow {valid : List CapacityOffer} {label : Key → String} {roles : List RequiredRole} {assignments : List RoleAssignment}
    (entries : Entries valid roles assignments) :
    Shows valid label roles assignments (roles.zipWith (roleView valid label) assignments) ↔
      ∀ won ∈ roles.zip (assignments.map RoleAssignment.provider), (offersFor valid won.1 won.2).length = 1 := by
  induction entries with
  | nil => simp [Shows]
  | @cons role a roles assignments entry _ ih =>
    obtain ⟨o,serves,rfl⟩ := entry
    have here : Marks valid label (assignment role o) (roleView valid label role (assignment role o)) ↔ _ :=
      marksSingle serves rfl
    rw [Shows, List.zipWith_cons_cons, List.map_cons, List.map_cons, List.cons.injEq, List.forall₂_cons, here,
      List.map_cons, List.zip_cons_cons, List.forall_mem_cons, ← ih, Shows]
    exact ⟨fun ⟨⟨_,names⟩,single,rest⟩ => ⟨single,names,rest⟩,fun ⟨single,names,rest⟩ => ⟨⟨rfl,names⟩,single,rest⟩⟩

/- A successful view shows the assignments of the same clear, one marked bid each, exactly if
every winner has a single valid offer for its role. -/
theorem viewMarksWinner (crypto : Crypto) (spec : PipelineSpec) (offers : List CapacityOffer) (now : UnixSeconds)
    (policy : SelectionPolicy) (state : SelectionState) (label : Key → String) :
    let valid := validOffers crypto offers now
    let policyFor := fun role : RequiredRole => role.selectionPolicy.getD policy
    (∀ views, (spec.auctionView crypto offers now policy state label).1 = .ok views →
      ∃ assignments, (spec.conveneWithPolicy crypto offers now policy state).1 = .ok assignments ∧
        Shows valid label spec.roles assignments views) ↔
      ∀ winners, Clears policyFor valid state [] spec.roles winners → ∀ won ∈ winners, (offersFor valid won.1 won.2).length = 1 := by
  intro valid policyFor
  have viewed : (spec.auctionView crypto offers now policy state label).1 =
      (spec.conveneValid valid policyFor state).1.map fun assignments => spec.roles.zipWith (roleView valid label) assignments := rfl
  have convened : spec.conveneWithPolicy crypto offers now policy state = spec.conveneValid valid policyFor state := rfl
  rw [viewed, convened, PipelineSpec.conveneValid]
  split
  · rename_i empty
    rw [List.isEmpty_iff.mp empty]
    constructor
    · intro _ winners clears
      cases clears
      simp
    · intro _ views viewed
      contradiction
  · constructor
    · intro shows winners clears
      obtain ⟨result,filled⟩ := clearsFilled clears
      obtain ⟨assignments,same,shown⟩ := shows _ (congrArg (Except.map _) filled)
      cases filled.symm.trans same
      rw [clearsUnique clears (fillClears filled)]
      exact (viewsShow (fillEntries filled).1).mp shown
    · intro single views viewed
      obtain ⟨assignments,filled,rfl⟩ := Machine.mapOk.mp viewed
      exact ⟨assignments,filled,(viewsShow (fillEntries filled).1).mpr (single _ (fillClears filled))⟩

/- The coder has two offers for the one role; the dearer is marked as well. -/
def onlyCode : PipelineSpec := ⟨"build",[⟨.codeGeneration,1,"code",none⟩],.lowestFloor⟩
def dearerCoder : CapacityOffer := { coder with minPrice := 60 }

theorem bothOffersMarked :
    ¬ ∀ views, (onlyCode.auctionView anySignature [coder,dearerCoder] 100 .lowestFloor .default fun _ => "agent").1 = .ok views →
      ∃ assignments, (onlyCode.conveneWithPolicy anySignature [coder,dearerCoder] 100 .lowestFloor .default).1 = .ok assignments ∧
        Shows (validOffers anySignature [coder,dearerCoder] 100) (fun _ => "agent") onlyCode.roles assignments views := by
  have viewed : (onlyCode.auctionView anySignature [coder,dearerCoder] 100 .lowestFloor .default fun _ => "agent").1 =
      .ok [⟨"code",[⟨"agent",20,50,true⟩,⟨"agent",20,60,true⟩]⟩] := by decide +kernel
  intro shows
  obtain ⟨assignments,_,_,marks⟩ := shows _ viewed
  cases marks with
  | cons here _ =>
    obtain ⟨o,_,_,_,marked⟩ := here
    simp at marked

end CadsTunnel.Pipeline
