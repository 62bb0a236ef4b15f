import CadsTunnel.PipelineConvene
import CadsTunnel.FairChoice

/-! What a clear leaves in the selection state. The policies are read as rules that say
who wins a role from the offers and the state; each role's win is written before it is
known whether the later roles can be filled, so a clear that fails keeps what the roles
ahead of the failure wrote. -/
namespace CadsTunnel.Pipeline
open OrderedMap ChannelObjects Assignment FairChoice

structure RoleBidView where
  who : String
  units : UInt64
  price : UInt64
  win : Bool
  deriving DecidableEq, Repr

structure RoleAuctionView where
  role : String
  bids : List RoleBidView
  deriving DecidableEq, Repr

def bidView (label : Key → String) (provider : Key) (o : CapacityOffer) : RoleBidView :=
  ⟨label o.holderPubkey,o.unitsAvailable,o.minPrice,decide (o.holderPubkey = provider)⟩

/- The winner first, then the cheapest, then by name. -/
def byDisplay (a b : RoleBidView) : Ordering :=
  (compare b.win a.win).then ((compare a.price b.price).then (compare a.who b.who))

def roleView (valid : List CapacityOffer) (label : Key → String) (role : RequiredRole) (a : RoleAssignment) : RoleAuctionView :=
  ⟨role.tag,((valid.filter (serves role)).map (bidView label a.provider)).insertionSort fun x y => (byDisplay x y).isLE⟩

def PipelineSpec.auctionView (crypto : Crypto) (spec : PipelineSpec) (offers : List CapacityOffer) (now : UnixSeconds)
    (policy : SelectionPolicy) (state : SelectionState) (label : Key → String) :
    Except PipelineError (List RoleAuctionView) × SelectionState :=
  let valid := validOffers crypto offers now
  let (result,state) := spec.conveneValid valid (fun role => role.selectionPolicy.getD policy) state
  (result.map fun assignments => spec.roles.zipWith (roleView valid label) assignments,state)

/- What a win writes. -/
def SelectionState.after (policy : SelectionPolicy) (roleTag : String) (provider : Key) (state : SelectionState) : SelectionState :=
  match policy with
  | .lowestFloor => state
  | .roundRobin => { state with roundRobinCursor := state.roundRobinCursor.insert roleTag provider }
  | .leastCalls => { state with servedCounts := state.servedCounts.insert provider (state.served provider + 1) }

/- A provider the role may still go to. -/
def Free (valid : List CapacityOffer) (taken : List Key) (role : RequiredRole) (provider : Key) : Prop :=
  Qualifies valid role provider ∧ provider ∉ taken

/- The provider of a best offer among those still free, by jobs served, then floor, then key. -/
def Laggard (valid : List CapacityOffer) (taken : List Key) (state : SelectionState) (role : RequiredRole) (provider : Key) : Prop :=
  provider ∉ taken ∧ ∃ o, Serves valid role provider o ∧
    ∀ o', Serves valid role o'.holderPubkey o' → o'.holderPubkey ∉ taken → (byCalls state o o').isLE

/- Who wins a role, by the offers and the state. -/
def Wins (valid : List CapacityOffer) (taken : List Key) (state : SelectionState) (policy : SelectionPolicy)
    (role : RequiredRole) (provider : Key) : Prop :=
  match policy with
  | .lowestFloor => Cheapest valid taken role provider
  | .roundRobin => Following (Free valid taken role) state.roundRobinCursor[role.tag]? provider
  | .leastCalls => Laggard valid taken state role provider

section Picks
variable {valid : List CapacityOffer} {taken : List Key} {state : SelectionState} {role : RequiredRole}

theorem byCallsTrans (state : SelectionState) : Std.TransCmp (byCalls state) :=
  inferInstanceAs (Std.TransCmp (compareLex (compareOn fun o : CapacityOffer => state.served o.holderPubkey) byFloor))

theorem byCallsEq {a b : CapacityOffer} (same : byCalls state a b = .eq) : a.holderPubkey = b.holderPubkey := by
  rw [byCalls, compareLex, Ordering.then_eq_eq] at same
  exact byFloorEq same.2

theorem freeQualifying {provider : Key} :
    Free valid taken role provider ↔ ∃ o ∈ qualifying valid taken role, o.holderPubkey = provider := by
  constructor
  · rintro ⟨⟨o,serves⟩,free⟩
    exact ⟨o,qualifyingMem.mpr ⟨serves.held ▸ serves,serves.held ▸ free⟩,serves.held⟩
  · rintro ⟨o,mem,rfl⟩
    obtain ⟨serves,free⟩ := qualifyingMem.mp mem
    exact ⟨⟨o,serves⟩,free⟩

theorem ringSorted (offers : List CapacityOffer) :
    (ring offers).Pairwise fun a b => (compare a.holderPubkey b.holderPubkey).isLE := by
  exact sortedByKey CapacityOffer.holderPubkey offers

/- The first offer of the ring that meets a condition has the least key among those that meet it. -/
theorem ringFind {offers : List CapacityOffer} {p : CapacityOffer → Bool} {o : CapacityOffer} (found : (ring offers).find? p = some o) :
    ∀ o' ∈ offers, p o' → (compare o.holderPubkey o'.holderPubkey).isLE := by
  intro o' mem meets
  obtain ⟨_,before,after,split,fails⟩ := List.find?_eq_some_iff_append.mp found
  have sorted := ringSorted offers
  have inside : o' ∈ ring offers := ringMem.mpr mem
  rw [split] at sorted inside
  rcases List.mem_append.mp inside with early | late
  · have missed := fails o' early
    rw [meets] at missed
    contradiction
  · rcases List.mem_cons.mp late with rfl | later
    · have same : compare o'.holderPubkey o'.holderPubkey = .eq := Std.ReflCmp.compare_self
      rw [same]
      rfl
    · exact (List.pairwise_cons.mp (List.pairwise_append.mp sorted).2.1).1 o' later

theorem ringHead (first : CapacityOffer) (rest : List CapacityOffer) :
    ∀ o' ∈ first :: rest, (compare ((ring (first :: rest)).headD first).holderPubkey o'.holderPubkey).isLE := by
  intro o' mem
  have lead : (ring (first :: rest)).find? (fun _ => true) = some ((ring (first :: rest)).headD first) := by
    cases ordered : ring (first :: rest) with
    | nil => exact absurd (ringMem.mpr (List.mem_cons_self : first ∈ first :: rest)) (by rw [ordered]; simp)
    | cons lead others => rfl
  exact ringFind lead o' mem rfl

theorem pickWins {first : CapacityOffer} {rest : List CapacityOffer} (found : qualifying valid taken role = first :: rest)
    (policy : SelectionPolicy) : Wins valid taken state policy role (policy.pick role.tag first rest state).1.holderPubkey := by
  have picked := pickMem policy role.tag first rest state
  cases policy with
  | lowestFloor => exact cheapestPick found
  | leastCalls =>
    obtain ⟨serves,free⟩ := qualifyingMem.mp (found ▸ picked)
    refine ⟨free,_,serves,?_⟩
    intro other served unassigned
    have trans : Std.TransCmp (byCalls state) := byCallsTrans state
    exact minByLeast first rest other (found ▸ qualifyingMem.mpr ⟨served,unassigned⟩)
  | roundRobin =>
    refine ⟨freeQualifying.mpr ⟨_,found ▸ picked,rfl⟩,?_⟩
    have among {k : Key} (free : Free valid taken role k) : ∃ o ∈ first :: rest, o.holderPubkey = k := by
      rw [← found]
      exact freeQualifying.mp free
    have least {k : Key} (free : Free valid taken role k) :
        (compare ((ring (first :: rest)).headD first).holderPubkey k).isLE := by
      obtain ⟨o,mem,rfl⟩ := among free
      exact ringHead first rest o mem
    simp only [SelectionPolicy.pick]
    cases cursor : state.roundRobinCursor[role.tag]? with
    | none => exact .inr ⟨by simp,fun k free => least free⟩
    | some last =>
      dsimp only
      cases next : (ring (first :: rest)).find? fun o => compare o.holderPubkey last = .gt with
      | none =>
        refine .inr ⟨?_,fun k free => least free⟩
        rintro last' same k free above
        cases same
        obtain ⟨o,mem,rfl⟩ := among free
        have fails := List.find?_eq_none.mp next o (ringMem.mpr mem)
        exact fails (by simpa using Std.OrientedCmp.gt_of_lt above)
      | some chosen =>
        refine .inl ⟨last,rfl,?_,?_⟩
        · exact Std.OrientedCmp.lt_of_gt (by simpa using List.find?_some next)
        · intro k free above
          obtain ⟨o,mem,rfl⟩ := among free
          exact ringFind next o mem (by simpa using Std.OrientedCmp.gt_of_lt above)

theorem pickAfter (policy : SelectionPolicy) (first : CapacityOffer) (rest : List CapacityOffer) :
    (policy.pick role.tag first rest state).2 =
      state.after policy role.tag (policy.pick role.tag first rest state).1.holderPubkey := by
  cases policy <;> rfl

theorem winsUnique {policy : SelectionPolicy} {a b : Key} (left : Wins valid taken state policy role a)
    (right : Wins valid taken state policy role b) : a = b := by
  cases policy with
  | lowestFloor => exact cheapestUnique left right
  | roundRobin => exact followingUnique left right
  | leastCalls =>
    obtain ⟨freeA,o,servesA,leastA⟩ := left
    obtain ⟨freeB,p,servesB,leastB⟩ := right
    obtain rfl := servesA.held
    obtain rfl := servesB.held
    have trans : Std.TransCmp (byCalls state) := byCallsTrans state
    exact byCallsEq (Std.OrientedCmp.isLE_antisymm (leastA p servesB freeB) (leastB o servesA freeA))

theorem winsFree {policy : SelectionPolicy} {a : Key} (wins : Wins valid taken state policy role a) : Free valid taken role a := by
  cases policy with
  | lowestFloor =>
    obtain ⟨free,o,serves,_⟩ := wins
    exact ⟨⟨o,serves⟩,free⟩
  | roundRobin => exact wins.1
  | leastCalls =>
    obtain ⟨free,o,serves,_⟩ := wins
    exact ⟨⟨o,serves⟩,free⟩

end Picks

section Failures
variable {policyFor : RequiredRole → SelectionPolicy} {valid : List CapacityOffer}

/- The roles a clear gets to fill, with their winners, before one that nobody free serves. -/
inductive Fails (policyFor : RequiredRole → SelectionPolicy) (valid : List CapacityOffer) :
    SelectionState → List Key → List RequiredRole → List (RequiredRole × Key) → Prop
  | stuck {state : SelectionState} {taken : List Key} {role : RequiredRole} {roles : List RequiredRole} :
      (∀ k, ¬ Free valid taken role k) → Fails policyFor valid state taken (role :: roles) []
  | next {state : SelectionState} {taken : List Key} {role : RequiredRole} {roles : List RequiredRole} {k : Key}
      {ahead : List (RequiredRole × Key)} : Wins valid taken state (policyFor role) role k →
      Fails policyFor valid (state.after (policyFor role) role.tag k) (taken ++ [k]) roles ahead →
      Fails policyFor valid state taken (role :: roles) ((role,k) :: ahead)

def written (policyFor : RequiredRole → SelectionPolicy) (state : SelectionState) (ahead : List (RequiredRole × Key)) : SelectionState :=
  ahead.foldl (fun state won => state.after (policyFor won.1) won.1.tag won.2) state

theorem fillFirst {role : RequiredRole} {roles : List RequiredRole} {taken : List Key} {state : SelectionState} {k : Key}
    (wins : Wins valid taken state (policyFor role) role k) :
    ∃ o, o.holderPubkey = k ∧ fillRoles policyFor valid (role :: roles) taken state =
      ((fillRoles policyFor valid roles (taken ++ [k]) (state.after (policyFor role) role.tag k)).1.map (assignment role o :: ·),
        (fillRoles policyFor valid roles (taken ++ [k]) (state.after (policyFor role) role.tag k)).2) := by
  obtain ⟨o,mem,_⟩ := freeQualifying.mp (winsFree wins)
  cases found : qualifying valid taken role with
  | nil =>
    rw [found] at mem
    contradiction
  | cons first rest =>
    obtain rfl := winsUnique wins (pickWins found (policyFor role))
    refine ⟨_,rfl,?_⟩
    rw [fillRoles, found, ← pickAfter]

theorem fillStuck {role : RequiredRole} {roles : List RequiredRole} {taken : List Key} {state : SelectionState}
    (stuck : ∀ k, ¬ Free valid taken role k) :
    fillRoles policyFor valid (role :: roles) taken state = (.error (.unfilledRole role.service),state) := by
  cases found : qualifying valid taken role with
  | nil => rw [fillRoles, found]
  | cons first rest =>
    exact absurd (freeQualifying.mpr ⟨first,by rw [found]; exact List.mem_cons_self,rfl⟩) (stuck _)

theorem failsWritten {roles : List RequiredRole} {taken : List Key} {state : SelectionState} {ahead : List (RequiredRole × Key)}
    (fails : Fails policyFor valid state taken roles ahead) :
    (∃ error, (fillRoles policyFor valid roles taken state).1 = .error error) ∧
      (fillRoles policyFor valid roles taken state).2 = written policyFor state ahead := by
  induction fails with
  | stuck stuck =>
    rw [fillStuck stuck]
    exact ⟨⟨_,rfl⟩,rfl⟩
  | next wins _ ih =>
    obtain ⟨o,_,filled⟩ := fillFirst wins
    obtain ⟨⟨error,failed⟩,kept⟩ := ih
    rw [filled]
    exact ⟨⟨error,by rw [failed]; rfl⟩,kept⟩

theorem errorFails {roles : List RequiredRole} {taken : List Key} {state : SelectionState} {error : PipelineError}
    (failed : (fillRoles policyFor valid roles taken state).1 = .error error) :
    ∃ ahead, Fails policyFor valid state taken roles ahead := by
  induction roles generalizing taken state error with
  | nil => cases failed
  | cons role roles ih =>
    by_cases stuck : ∀ k, ¬ Free valid taken role k
    · exact ⟨[],.stuck stuck⟩
    · cases found : qualifying valid taken role with
      | nil =>
        refine absurd (fun k free => ?_) stuck
        obtain ⟨o,mem,_⟩ := freeQualifying.mp free
        rw [found] at mem
        contradiction
      | cons first rest =>
        have wins : Wins valid taken state (policyFor role) role _ := pickWins found (policyFor role)
        obtain ⟨o,_,filled⟩ := @fillFirst _ _ _ roles _ _ _ wins
        rw [filled] at failed
        cases later : (fillRoles policyFor valid roles (taken ++ [_]) _).1 with
        | error e =>
          obtain ⟨ahead,fails⟩ := ih later
          exact ⟨_,.next wins fails⟩
        | ok result =>
          rw [later] at failed
          contradiction

/- No provider wins twice. -/
theorem failsDistinct {roles : List RequiredRole} {taken : List Key} {state : SelectionState} {ahead : List (RequiredRole × Key)}
    (fails : Fails policyFor valid state taken roles ahead) :
    (ahead.map Prod.snd).Nodup ∧ ∀ won ∈ ahead, won.2 ∉ taken := by
  induction fails with
  | stuck _ => exact ⟨List.nodup_nil,by simp⟩
  | @next state taken role roles k ahead wins _ ih =>
    obtain ⟨distinct,apart⟩ := ih
    refine ⟨List.nodup_cons.mpr ⟨?_,distinct⟩,List.forall_mem_cons.mpr ⟨(winsFree wins).2,?_⟩⟩
    · intro again
      obtain ⟨won,mem,same⟩ := List.mem_map.mp again
      exact apart won mem (by simp [same])
    · exact fun won mem held => apart won mem (List.mem_append_left _ held)

/- The last winner of a tag that was cleared in turn. -/
def lastTurn (policyFor : RequiredRole → SelectionPolicy) (tag : String) : List (RequiredRole × Key) → Option Key
  | [] => none
  | won :: later => (lastTurn policyFor tag later).or (if policyFor won.1 = .roundRobin ∧ won.1.tag = tag then some won.2 else none)

theorem afterCursor (policy : SelectionPolicy) (roleTag : String) (provider : Key) (state : SelectionState) (tag : String) :
    (state.after policy roleTag provider).roundRobinCursor[tag]? =
      if policy = .roundRobin ∧ roleTag = tag then some provider else state.roundRobinCursor[tag]? := by
  cases policy with
  | lowestFloor => rfl
  | leastCalls => rfl
  | roundRobin =>
    rw [SelectionState.after, lookupInsert]
    by_cases same : tag = roleTag
    · rw [if_pos same, if_pos ⟨rfl,same.symm⟩]
    · rw [if_neg same, if_neg fun both => same both.2.symm]

theorem afterCounts {policy : SelectionPolicy} (uncounted : policy ≠ .leastCalls) (tag : String) (provider : Key)
    (state : SelectionState) : (state.after policy tag provider).servedCounts = state.servedCounts := by
  cases policy with
  | lowestFloor => rfl
  | leastCalls => exact absurd rfl uncounted
  | roundRobin => rfl

theorem writtenCursor (state : SelectionState) (ahead : List (RequiredRole × Key)) (tag : String) :
    (written policyFor state ahead).roundRobinCursor[tag]? = (lastTurn policyFor tag ahead).or state.roundRobinCursor[tag]? := by
  induction ahead generalizing state with
  | nil => rfl
  | cons won later ih =>
    refine (ih _).trans ?_
    rw [lastTurn, Option.or_assoc, afterCursor]
    split <;> rfl

theorem writtenCounts {state : SelectionState} {ahead : List (RequiredRole × Key)}
    (none' : ∀ won ∈ ahead, policyFor won.1 ≠ .leastCalls) : (written policyFor state ahead).servedCounts = state.servedCounts := by
  induction ahead generalizing state with
  | nil => rfl
  | cons won later ih =>
    obtain ⟨here,rest⟩ := List.forall_mem_cons.mp none'
    exact (ih rest).trans (afterCounts here won.1.tag won.2 state)

theorem afterServed (policy : SelectionPolicy) (tag : String) (provider k : Key) (state : SelectionState) :
    (state.after policy tag provider).served k =
      if policy = .leastCalls ∧ k = provider then state.served k + 1 else state.served k := by
  cases policy with
  | lowestFloor => rfl
  | roundRobin => rfl
  | leastCalls =>
    rw [SelectionState.after, SelectionState.served, amountInsert]
    by_cases same : k = provider
    · rw [if_pos same, if_pos ⟨rfl,same⟩, same]
    · rw [if_neg same, if_neg fun both => same both.2]
      rfl

theorem writtenServed {state : SelectionState} {ahead : List (RequiredRole × Key)} (k : Key)
    (absent : k ∉ ahead.map Prod.snd) : (written policyFor state ahead).served k = state.served k := by
  induction ahead generalizing state with
  | nil => rfl
  | cons won later ih =>
    rw [List.map_cons, List.mem_cons, not_or] at absent
    refine (ih absent.2).trans ?_
    rw [afterServed, if_neg fun both => absent.1 both.2]

/- A job counted for a winner stays counted, for it wins only once. -/
theorem writtenCounted {state : SelectionState} {ahead : List (RequiredRole × Key)} (distinct : (ahead.map Prod.snd).Nodup)
    {won : RequiredRole × Key} (mem : won ∈ ahead) (counted : policyFor won.1 = .leastCalls) :
    (written policyFor state ahead).served won.2 = state.served won.2 + 1 := by
  induction ahead generalizing state with
  | nil => contradiction
  | cons first later ih =>
    obtain ⟨fresh,distinct⟩ := List.nodup_cons.mp distinct
    rcases List.mem_cons.mp mem with rfl | behind
    · refine (writtenServed won.2 fresh).trans ?_
      rw [afterServed, if_pos ⟨counted,rfl⟩]
    · refine (ih distinct behind).trans ?_
      have other : won.2 ≠ first.2 := fun same => fresh (same ▸ List.mem_map_of_mem behind)
      rw [afterServed, if_neg fun both => other both.2]

/- The wins ahead write nothing new: none of them counts a job, and the cursor of every tag
already names the last that was taken in turn. -/
def Settled (policyFor : RequiredRole → SelectionPolicy) (state : SelectionState) (ahead : List (RequiredRole × Key)) : Prop :=
  (∀ won ∈ ahead, policyFor won.1 ≠ .leastCalls) ∧
    ∀ tag k, lastTurn policyFor tag ahead = some k → state.roundRobinCursor[tag]? = some k

theorem writtenSettled {state : SelectionState} {ahead : List (RequiredRole × Key)} (distinct : (ahead.map Prod.snd).Nodup) :
    written policyFor state ahead = state ↔ Settled policyFor state ahead := by
  constructor
  · intro same
    refine ⟨fun won mem counted => ?_,fun tag k last => ?_⟩
    · have more : (written policyFor state ahead).served _ = _ := writtenCounted distinct mem counted
      rw [same] at more
      simp at more
    · have cursor : (written policyFor state ahead).roundRobinCursor[tag]? = _ := writtenCursor state ahead tag
      rw [same, last] at cursor
      exact cursor
  · rintro ⟨uncounted,named⟩
    have counts : (written policyFor state ahead).servedCounts = state.servedCounts := writtenCounts uncounted
    have cursors : (written policyFor state ahead).roundRobinCursor = state.roundRobinCursor := by
      refine Std.ExtTreeMap.ext_getElem? fun tag => ?_
      rw [writtenCursor]
      cases last : lastTurn policyFor tag ahead with
      | none => rfl
      | some k => exact (named tag k last).symm
    cases whole : written policyFor state ahead with
    | mk cursor served =>
      rw [whole] at counts cursors
      cases state
      exact congrArg₂ SelectionState.mk cursors counts

end Failures

/- A call that fails leaves the state as it was. -/
def Keeps {Answer : Type} (state : SelectionState) (call : Except PipelineError Answer × SelectionState) : Prop :=
  ∀ error, call.1 = .error error → call.2 = state

theorem conveneKeeps (spec : PipelineSpec) (valid : List CapacityOffer) (policyFor : RequiredRole → SelectionPolicy)
    (state : SelectionState) : Keeps state (spec.conveneValid valid policyFor state) ↔
      ∀ ahead, Fails policyFor valid state [] spec.roles ahead → Settled policyFor state ahead := by
  rw [PipelineSpec.conveneValid]
  split
  · rename_i empty
    rw [List.isEmpty_iff.mp empty]
    refine ⟨fun _ ahead fails => ?_,fun _ _ _ => rfl⟩
    cases fails
  · constructor
    · intro keeps ahead fails
      obtain ⟨⟨error,failed⟩,wrote⟩ := failsWritten fails
      exact (writtenSettled (failsDistinct fails).1).mp (wrote.symm.trans (keeps error failed))
    · intro settled error failed
      obtain ⟨ahead,fails⟩ := errorFails failed
      exact (failsWritten fails).2.trans ((writtenSettled (failsDistinct fails).1).mpr (settled ahead fails))

/- A failing call leaves the selection state as it was exactly if the roles ahead of the one
it cannot fill write nothing new to it. -/
theorem failureKeepsState (crypto : Crypto) (spec : PipelineSpec) (offers : List CapacityOffer) (now : UnixSeconds)
    (policy : SelectionPolicy) (state : SelectionState) (label : Key → String) :
    let policyFor := fun role : RequiredRole => role.selectionPolicy.getD policy
    let settled := ∀ ahead, Fails policyFor (validOffers crypto offers now) state [] spec.roles ahead → Settled policyFor state ahead
    (Keeps state (spec.conveneWithPolicy crypto offers now policy state) ↔ settled) ∧
      (Keeps state (spec.auctionView crypto offers now policy state label) ↔ settled) := by
  intro policyFor settled
  have convened := conveneKeeps spec (validOffers crypto offers now) policyFor state
  refine ⟨convened,Iff.trans ?_ convened⟩
  rw [PipelineSpec.auctionView]
  refine forall_congr' fun error => imp_congr_left ?_
  dsimp only
  cases (spec.conveneValid (validOffers crypto offers now) policyFor state).1 <;> simp [Except.map]

/- The coder is taken in turn for the first role, and nobody reviews. -/
theorem cursorMoved :
    ¬ Keeps SelectionState.default (codeAndReview.conveneWithPolicy anySignature [coder] 100 .roundRobin .default) ∧
    ¬ Keeps SelectionState.default
      (codeAndReview.auctionView anySignature [coder] 100 .roundRobin .default fun _ => "agent") := by
  have failed : (codeAndReview.conveneWithPolicy anySignature [coder] 100 .roundRobin .default).1 =
      .error (.unfilledRole .securityReview) := by decide +kernel
  have moved : (codeAndReview.conveneWithPolicy anySignature [coder] 100 .roundRobin .default).2.roundRobinCursor["code"]? =
      some coder.holderPubkey := by decide +kernel
  have failed' : (codeAndReview.auctionView anySignature [coder] 100 .roundRobin .default fun _ => "agent").1 =
      .error (.unfilledRole .securityReview) := by decide +kernel
  have moved' : (codeAndReview.auctionView anySignature [coder] 100 .roundRobin .default fun _ => "agent").2.roundRobinCursor["code"]? =
      some coder.holderPubkey := by decide +kernel
  have unset : SelectionState.default.roundRobinCursor["code"]? = none := by decide +kernel
  refine ⟨fun keeps => ?_,fun keeps => ?_⟩
  · rw [keeps _ failed, unset] at moved
    contradiction
  · rw [keeps _ failed', unset] at moved'
    contradiction

end CadsTunnel.Pipeline
