import CadsTunnel.PipelineSelection

/-! Convening one role again and again. Offers come and go, but as long as the same
providers qualify, a clear in turn takes them round the ring of their keys, and a clear by
jobs keeps their counts level until a counter runs over. -/
namespace CadsTunnel.Pipeline
open OrderedMap ChannelObjects Assignment FairChoice

/- What one convene is given. -/
structure Convening where
  offers : List CapacityOffer
  now : UnixSeconds
  policy : SelectionPolicy

def PipelineSpec.convenings (crypto : Crypto) (spec : PipelineSpec) :
    List Convening → SelectionState → List (Except PipelineError (List RoleAssignment)) × SelectionState
  | [], state => ([],state)
  | call :: calls, state =>
    let (result,state) := spec.conveneWithPolicy crypto call.offers call.now call.policy state
    let (results,state) := spec.convenings crypto calls state
    (result :: results,state)

/- A convening cleared by the policy, for which the providers and nobody else qualify. -/
structure Steady (crypto : Crypto) (role : RequiredRole) (providers : List Key) (policy : SelectionPolicy) (call : Convening) : Prop where
  effective : role.selectionPolicy.getD call.policy = policy
  among : ∀ k, Qualifies (validOffers crypto call.offers call.now) role k ↔ k ∈ providers

/- The providers that the role went to, one after another. -/
def Chosen (results : List (Except PipelineError (List RoleAssignment))) (providers : List Key) : Prop :=
  results.map (Except.map (List.map RoleAssignment.provider)) = providers.map fun k => .ok [k]

def jobs (state : SelectionState) (provider : Key) : Nat := (state.served provider).toNat

theorem conveningsCons (crypto : Crypto) (spec : PipelineSpec) (call : Convening) (calls : List Convening) (state : SelectionState) :
    spec.convenings crypto (call :: calls) state =
      ((spec.conveneWithPolicy crypto call.offers call.now call.policy state).1 ::
        (spec.convenings crypto calls (spec.conveneWithPolicy crypto call.offers call.now call.policy state).2).1,
        (spec.convenings crypto calls (spec.conveneWithPolicy crypto call.offers call.now call.policy state).2).2) := rfl

section Single
variable {crypto : Crypto} {spec : PipelineSpec} {role : RequiredRole} {providers : List Key} {policy : SelectionPolicy}

theorem convenedOne (single : spec.roles = [role]) {call : Convening} {state : SelectionState} {k : Key}
    (steady : Steady crypto role providers policy call)
    (wins : Wins (validOffers crypto call.offers call.now) [] state policy role k) :
    (spec.conveneWithPolicy crypto call.offers call.now call.policy state).1.map (List.map RoleAssignment.provider) = .ok [k] ∧
      (spec.conveneWithPolicy crypto call.offers call.now call.policy state).2 = state.after policy role.tag k := by
  rw [← steady.effective] at wins
  obtain ⟨o,rfl,filled⟩ := @fillFirst (fun role => role.selectionPolicy.getD call.policy) _ role [] [] state k wins
  rw [PipelineSpec.conveneWithPolicy, PipelineSpec.conveneRoles, PipelineSpec.conveneValid, single, filled]
  exact ⟨rfl,by rw [← steady.effective]; rfl⟩

theorem winnerAmong {valid : List CapacityOffer} (state : SelectionState) {k : Key} (qualifies : Qualifies valid role k) :
    ∃ winner, Wins valid [] state policy role winner := by
  obtain ⟨o,mem,_⟩ := freeQualifying.mp (⟨qualifies,List.not_mem_nil⟩ : Free valid [] role k)
  cases found : qualifying valid [] role with
  | nil =>
    rw [found] at mem
    contradiction
  | cons first rest => exact ⟨_,pickWins found policy⟩

theorem steadyFree {call : Convening} (steady : Steady crypto role providers policy call) :
    Free (validOffers crypto call.offers call.now) [] role = fun k => k ∈ providers :=
  funext fun k => propext ((and_iff_left List.not_mem_nil).trans (steady.among k))

theorem convenedFirst (single : spec.roles = [role]) (occupied : providers ≠ []) {call : Convening} {state : SelectionState}
    (steady : Steady crypto role providers policy call) :
    ∃ k, Wins (validOffers crypto call.offers call.now) [] state policy role k ∧
      (spec.conveneWithPolicy crypto call.offers call.now call.policy state).1.map (List.map RoleAssignment.provider) = .ok [k] ∧
      (spec.conveneWithPolicy crypto call.offers call.now call.policy state).2 = state.after policy role.tag k := by
  obtain ⟨provider,mem⟩ := List.exists_mem_of_ne_nil providers occupied
  obtain ⟨k,wins⟩ := winnerAmong state ((steady.among provider).mpr mem)
  exact ⟨k,wins,convenedOne single steady wins⟩

theorem conveningsRotate (single : spec.roles = [role]) (occupied : providers ≠ []) {calls : List Convening} {state : SelectionState}
    (steady : ∀ call ∈ calls, Steady crypto role providers .roundRobin call) :
    ∃ ks, Chosen (spec.convenings crypto calls state).1 ks ∧
      Rotates (fun k => k ∈ providers) state.roundRobinCursor[role.tag]? ks := by
  induction calls generalizing state with
  | nil => exact ⟨[],rfl,.nil⟩
  | cons call calls ih =>
    obtain ⟨here,later⟩ := List.forall_mem_cons.mp steady
    obtain ⟨k,wins,result,kept⟩ := @convenedFirst _ _ _ _ _ single occupied _ state here
    obtain ⟨ks,chosen,turns⟩ := @ih (state.after .roundRobin role.tag k) later
    have next : Following (fun k => k ∈ providers) state.roundRobinCursor[role.tag]? k := steadyFree here ▸ wins
    rw [afterCursor, if_pos ⟨rfl,rfl⟩] at turns
    refine ⟨k :: ks,?_,.cons next turns⟩
    rw [Chosen, conveningsCons, kept, List.map_cons, List.map_cons]
    exact congrArg₂ _ result chosen

theorem laggardLeast {valid : List CapacityOffer} {state : SelectionState} {k a : Key} (wins : Laggard valid [] state role k)
    (qualifies : Qualifies valid role a) : jobs state k ≤ jobs state a := by
  obtain ⟨_,o,serves,least⟩ := wins
  obtain ⟨o',serves'⟩ := qualifies
  obtain rfl := serves.held
  obtain rfl := serves'.held
  have below := least o' serves' List.not_mem_nil
  rw [byCalls, compareLex] at below
  have counts : (compare (state.served o.holderPubkey) (state.served o'.holderPubkey)).isLE := by
    cases order : compare (state.served o.holderPubkey) (state.served o'.holderPubkey) with
    | lt => rfl
    | eq => rfl
    | gt =>
      rw [compareOn, order] at below
      contradiction
  exact UInt64.le_iff_toNat_le.mp (Std.isLE_compare.mp counts)

theorem jobsAfter (tag : String) (state : SelectionState) (k : Key) :
    jobs (state.after .leastCalls tag k) = Function.update (jobs state) k ((jobs state k + 1) % 2 ^ 64) := by
  funext a
  rw [jobs, afterServed, Function.update_apply]
  by_cases same : a = k
  · rw [if_pos ⟨rfl,same⟩, if_pos same, same, UInt64.toNat_add]
    rfl
  · rw [if_neg fun both => same both.2, if_neg same]
    rfl

theorem conveningsServe (single : spec.roles = [role]) (occupied : providers ≠ []) {calls : List Convening} {state : SelectionState}
    (steady : ∀ call ∈ calls, Steady crypto role providers .leastCalls call) :
    ∃ ks, Chosen (spec.convenings crypto calls state).1 ks ∧
      FairChoice.Serves (2 ^ 64) providers (jobs state) ks (jobs (spec.convenings crypto calls state).2) := by
  induction calls generalizing state with
  | nil => exact ⟨[],rfl,.nil⟩
  | cons call calls ih =>
    obtain ⟨here,later⟩ := List.forall_mem_cons.mp steady
    obtain ⟨k,wins,result,kept⟩ := @convenedFirst _ _ _ _ _ single occupied _ state here
    obtain ⟨ks,chosen,turns⟩ := @ih (state.after .leastCalls role.tag k) later
    rw [jobsAfter] at turns
    refine ⟨k :: ks,?_,?_⟩
    · rw [Chosen, conveningsCons, kept, List.map_cons, List.map_cons]
      exact congrArg₂ _ result chosen
    · rw [conveningsCons, kept]
      exact .cons ((here.among k).mp (winsFree wins).1) (fun a mem => laggardLeast wins ((here.among a).mpr mem)) turns

theorem chosenLength {results : List (Except PipelineError (List RoleAssignment))} {ks : List Key} (chosen : Chosen results ks) :
    ks.length = results.length := by
  simpa using (congrArg List.length chosen).symm

theorem conveningsLength (calls : List Convening) (state : SelectionState) :
    (spec.convenings crypto calls state).1.length = calls.length := by
  induction calls generalizing state with
  | nil => rfl
  | cons call calls ih => exact congrArg (· + 1) (ih _)

theorem conveningsAppend (calls more : List Convening) (state : SelectionState) :
    (spec.convenings crypto (calls ++ more) state).2 = (spec.convenings crypto more (spec.convenings crypto calls state).2).2 := by
  induction calls generalizing state with
  | nil => rfl
  | cons call calls ih => exact ih _

theorem jobsBound (state : SelectionState) (k : Key) : jobs state k ≤ 2 ^ 64 - 1 := Nat.le_sub_one_of_lt (UInt64.toNat_lt _)

theorem equalServed {state : SelectionState} {c : UInt64} (equal : ∀ k ∈ providers, state.served k = c) :
    FairChoice.served providers (jobs state) = providers.length * c.toNat := by
  have counts : ∀ k ∈ providers, jobs state k = c.toNat := fun k mem => congrArg UInt64.toNat (equal k mem)
  exact Nat.le_antisymm (mostServed fun k mem => (counts k mem).le) (leastServed fun k mem => (counts k mem).ge)

theorem equalEven {state : SelectionState} {c : UInt64} (equal : ∀ k ∈ providers, state.served k = c) : Even providers (jobs state) := by
  intro a memA b memB
  rw [jobs, jobs, equal a memA, equal b memB]
  exact Nat.le_succ _

/- The convenings that use up the counters' range leave every counter at its end. -/
theorem usedUp (single : spec.roles = [role]) (occupied : providers ≠ []) (distinct : providers.Nodup) {calls : List Convening}
    {state : SelectionState} {c : UInt64} (equal : ∀ k ∈ providers, state.served k = c)
    (steady : ∀ call ∈ calls, Steady crypto role providers .leastCalls call)
    (used : calls.length = providers.length * (2 ^ 64 - 1 - c.toNat)) :
    ∀ k ∈ providers, jobs (spec.convenings crypto calls state).2 k = 2 ^ 64 - 1 := by
  obtain ⟨ks,chosen,turns⟩ := @conveningsServe _ _ _ _ single occupied _ state steady
  have start := equalServed equal
  have range : c.toNat + (2 ^ 64 - 1 - c.toNat) = 2 ^ 64 - 1 := Nat.add_sub_of_le (Nat.le_sub_one_of_lt (UInt64.toNat_lt c))
  have room : FairChoice.served providers (jobs state) + ks.length = providers.length * (2 ^ 64 - 1) := by
    rw [start, chosenLength chosen, conveningsLength, used, ← Nat.mul_add, range]
  obtain ⟨_,total⟩ := servesEven distinct turns (equalEven equal) room.le
  exact fullServed (fun k _ => jobsBound _ k) (by rw [total, room])

theorem countsLevel (single : spec.roles = [role]) (distinct : providers.Nodup) {calls : List Convening} {state : SelectionState}
    {c : UInt64} (equal : ∀ k ∈ providers, state.served k = c)
    (steady : ∀ call ∈ calls, Steady crypto role providers .leastCalls call) :
    (∀ t ≤ calls.length, Even providers (jobs (spec.convenings crypto (calls.take t) state).2)) ↔
      providers.length ≤ 1 ∨ calls.length ≤ providers.length * (2 ^ 64 - 1 - c.toNat) := by
  by_cases few : providers.length ≤ 1
  · refine ⟨fun _ => .inl few,fun _ t _ a memA b memB => ?_⟩
    obtain ⟨k,rfl⟩ : ∃ k, providers = [k] := List.length_eq_one_iff.mp (by have := List.length_pos_of_mem memA; omega)
    rw [List.mem_singleton.mp memA, List.mem_singleton.mp memB]
    exact Nat.le_succ _
  · rw [or_iff_right few]
    have occupied : providers ≠ [] := fun none => few (by simp [none])
    have taken (t : Nat) : ∀ call ∈ calls.take t, Steady crypto role providers .leastCalls call :=
      fun call mem => steady call (List.mem_of_mem_take mem)
    constructor
    · intro level
      by_contra more
      let used := providers.length * (2 ^ 64 - 1 - c.toNat)
      have inside : used < calls.length := not_le.mp more
      have full := usedUp single occupied distinct equal (taken used) (List.length_take_of_le inside.le)
      have after := level (used + 1) inside
      rw [List.take_succ_eq_append_getElem inside, conveningsAppend] at after
      have last : ∀ call ∈ [calls[used]], Steady crypto role providers .leastCalls call := fun call mem => by
        rw [List.mem_singleton.mp mem]
        exact steady _ (List.getElem_mem inside)
      obtain ⟨ks,chosen,turns⟩ := @conveningsServe _ _ _ _ single occupied _ (spec.convenings crypto (calls.take used) state).2 last
      obtain ⟨k,rfl⟩ := List.length_eq_one_iff.mp ((chosenLength chosen).trans (conveningsLength _ _))
      exact servesUneven distinct (not_le.mp few) (by decide) full turns after
    · intro room t within
      obtain ⟨ks,chosen,turns⟩ := @conveningsServe _ _ _ _ single occupied _ state (taken t)
      have start := equalServed equal
      have range : c.toNat + (2 ^ 64 - 1 - c.toNat) = 2 ^ 64 - 1 := Nat.add_sub_of_le (Nat.le_sub_one_of_lt (UInt64.toNat_lt c))
      refine (servesEven distinct turns (equalEven equal) ?_).1
      rw [start, chosenLength chosen, conveningsLength, List.length_take_of_le within, ← range, Nat.mul_add]
      exact Nat.add_le_add_left (within.trans room) _

end Single

/- With the same providers qualifying each time, as many convenes in turn as there are
providers take each once, from any state. By jobs, from equal counts, the counts stay
within one of each other exactly until a counter has to start over. -/
theorem fairSelection (crypto : Crypto) (spec : PipelineSpec) (role : RequiredRole) (single : spec.roles = [role])
    (providers : List Key) (distinct : providers.Nodup) (state : SelectionState) (calls : List Convening) :
    ((∀ call ∈ calls, Steady crypto role providers .roundRobin call) → calls.length = providers.length →
      ∃ ks, Chosen (spec.convenings crypto calls state).1 ks ∧ ks.Perm providers) ∧
    (∀ c, (∀ k ∈ providers, state.served k = c) → (∀ call ∈ calls, Steady crypto role providers .leastCalls call) →
      ((∀ t ≤ calls.length, Even providers (jobs (spec.convenings crypto (calls.take t) state).2)) ↔
        providers.length ≤ 1 ∨ calls.length ≤ providers.length * (2 ^ 64 - 1 - c.toNat))) := by
  refine ⟨fun steady many => ?_,fun c equal steady => countsLevel single distinct equal steady⟩
  rcases List.eq_nil_or_concat providers with rfl | occupied
  · rw [List.length_nil, List.length_eq_zero_iff] at many
    subst many
    exact ⟨[],rfl,.nil⟩
  · have occupied : providers ≠ [] := by
      obtain ⟨_,_,rfl⟩ := occupied
      simp
    obtain ⟨ks,chosen,turns⟩ := @conveningsRotate _ _ _ _ single occupied _ state steady
    exact ⟨ks,chosen,rotationVisits distinct turns ((chosenLength chosen).trans ((conveningsLength _ _).trans many))⟩

/- Two coders, asked for by name of the service each time. -/
def eitherCodes : PipelineSpec := ⟨"code",[⟨.codeGeneration,1,"code",none⟩],.lowestFloor⟩
def coders : List Key := [reviewer.holderPubkey,coder.holderPubkey]
def asked (policy : SelectionPolicy) : Convening := ⟨[reviewer,coder],100,policy⟩

theorem askedSteady (policy : SelectionPolicy) : Steady anySignature ⟨.codeGeneration,1,"code",none⟩ coders policy (asked policy) := by
  refine ⟨rfl,fun k => ?_⟩
  have both : validOffers anySignature (asked policy).offers (asked policy).now = [reviewer,coder] := by
    change validOffers anySignature [reviewer,coder] 100 = _
    decide +kernel
  rw [both, coders, List.mem_pair]
  constructor
  · rintro ⟨o,serves⟩
    rcases List.mem_pair.mp serves.offered with rfl | rfl
    · exact .inl serves.held.symm
    · exact .inr serves.held.symm
  · rintro (rfl | rfl)
    · exact ⟨reviewer,by simp,rfl,by decide,by decide⟩
    · exact ⟨coder,by simp,rfl,by decide,by decide⟩

theorem codersTakeTurns :
    (∃ ks, Chosen (eitherCodes.convenings anySignature [asked .roundRobin,asked .roundRobin] .default).1 ks ∧ ks.Perm coders) ∧
    ((∀ t ≤ 3, Even coders (jobs (eitherCodes.convenings anySignature
      ([asked .leastCalls,asked .leastCalls,asked .leastCalls].take t) .default).2)) ↔
      coders.length ≤ 1 ∨ 3 ≤ coders.length * (2 ^ 64 - 1 - (0 : UInt64).toNat)) :=
  ⟨(fairSelection anySignature eitherCodes _ rfl coders (by decide) .default [asked .roundRobin,asked .roundRobin]).1
      (by simp [askedSteady]) rfl,
    (fairSelection anySignature eitherCodes _ rfl coders (by decide) .default
      [asked .leastCalls,asked .leastCalls,asked .leastCalls]).2 0 (by decide +kernel) (by simp [askedSteady])⟩

/- Both coders have served as often as a counter can say. -/
def fullCounts : SelectionState := ⟨∅,((∅ : BTreeMap Key UInt64).insert reviewer.holderPubkey (-1)).insert coder.holderPubkey (-1)⟩

theorem countStartsOver :
    (∀ k ∈ coders, fullCounts.served k = -1) ∧
    Steady anySignature ⟨.codeGeneration,1,"code",none⟩ coders .leastCalls (asked .leastCalls) ∧
    ¬ Even coders (jobs (eitherCodes.convenings anySignature [asked .leastCalls] fullCounts).2) := by
  refine ⟨by decide +kernel,askedSteady _,fun even => ?_⟩
  have near := even coder.holderPubkey (by simp [coders]) reviewer.holderPubkey (by simp [coders])
  have restarted : jobs (eitherCodes.convenings anySignature [asked .leastCalls] fullCounts).2 reviewer.holderPubkey = 0 := by decide +kernel
  have full : jobs (eitherCodes.convenings anySignature [asked .leastCalls] fullCounts).2 coder.holderPubkey = 2 ^ 64 - 1 := by decide +kernel
  rw [restarted, full] at near
  contradiction

end CadsTunnel.Pipeline
