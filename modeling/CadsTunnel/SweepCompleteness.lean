import CadsTunnel.QueueOrder

/-! What one pass of the sweep leaves waiting. The pass takes the queue as it stands and ends
at the first hostname for whose domain no authority has room. Those behind it wait on, also
those of other domains, whether there is room for them or not. -/
namespace CadsTunnel.SweepCompleteness
open OrderedMap Sql TunnelStore CertStore CertSweep QueueOrder
open CaBudget (reservedWritten writtenNamed holds distinctUpdated)
open Std (ExtTreeMap)

/- A session without failures, from state to state. -/
section Runs
variable {State Error α β : Type} [FromSql Error]

def Runs (x : Session State Error α) (s : State) (a : α) (m : State) : Prop := x (s,[]) = (.ok a,(m,[]))

omit [FromSql Error] in
theorem runsPure (a : α) (s : State) : Runs (pure a : Session State Error α) s a s := rfl

omit [FromSql Error] in
theorem runsBind {x : Session State Error α} {f : α → Session State Error β} {s m t : State} {a : α} {b : β} (first : Runs x s a m) (next : Runs (f a) m b t) :
    Runs (x >>= f) s b t := by
  show ExceptT.bindCont f (x (s,[])).1 (x (s,[])).2 = _
  rw [first]
  exact next

theorem runsSelect (f : State → α) (s : State) : Runs (select f : Session State Error α) s (f s) s := rfl

theorem runsExecute (f : State → α × State) (s : State) : Runs (execute f : Session State Error α) s (f s).1 (f s).2 := rfl

omit [FromSql Error] in
theorem runsAttempt {x : Session State Error α} {s m : State} {a : α} (ran : Runs x s a m) : Runs (attempt x) s (.ok a) m := by
  rw [Runs, attempt, ran]

omit [FromSql Error] in
theorem runsPerform {x : Session State Error α} {s m : State} {a : α} (ran : Runs x s a m) : perform x s [] = (.ok a,m) := by
  rw [perform, ran]

omit [FromSql Error] in
/- A loop whose steps leave the state as it is. -/
theorem runsFold {f : β → α → Session State Error β} {g : β → α → β} {s : State} (each : ∀ b a, Runs (f b a) s (g b a) s) (xs : List α) (b : β) :
    Runs (xs.foldlM f b) s (xs.foldl g b) s := by
  induction xs generalizing b with
  | nil => exact runsPure b s
  | cons x rest ih =>
    rw [List.foldlM_cons, List.foldl_cons]
    exact runsBind (each b x) (ih (g b x))

end Runs

variable (rotation : List CaProfile) (eabLookup : String → Option String × Option String)

/- The queue, one hostname after the other. -/
def admitEach (now : Int) : List String → Work Unit
  | [] => pure ()
  | hostname :: queue => do
    let picked ← attempt (pickCaWith rotation eabLookup (registeredDomain hostname) now)
    match picked with
    | .ok (some ca) => do
      let _ ← attempt (offerClaim hostname ca now (now + claimWindowSecs))
      admitEach now queue
    | .ok none => pure ()
    | .error _ => admitEach now queue

/- The fourth step of `sweep_once`. -/
def admitQueue (now : Int) : Work Unit := do
  let queue ← gelbQueueFifo
  admitEach rotation eabLookup now queue

/- The sweep when nobody else writes between its steps. -/
def alone (now : Int) : Nat → Sweep → Work Sweep
  | 0, sweep => pure sweep
  | n + 1, sweep => do
    let next ← sweep.work rotation eabLookup now
    alone now n next

def usable (ca : CaProfile) : Bool := !(ca.requiresEab && ((eabLookup ca.name).1.isNone || (eabLookup ca.name).2.isNone))

def usableNames : Finset String := ((rotation.filter (usable eabLookup)).map CaProfile.name).toFinset

def headroom (now : Int) (ca domain : String) (s : Tables) : Int :=
  budgetFor ca - issued ca domain (now - budgetWindowSecs) s - reserved ca domain s

/- How many offers a domain has left, over all authorities. -/
def capacity (now : Int) (domain : String) (s : Tables) : Nat := ∑ ca ∈ usableNames rotation eabLookup, (headroom now ca domain s).toNat

/- Where the hostnames before one have all that its domain has left, there is no more than they have for those behind it
either. -/
def Fits (capacityOf : String → Nat) (queue : List String) : Prop :=
  ∀ (i : Nat) hostname, queue[i]? = some hostname →
    capacityOf (registeredDomain hostname) ≤ (queue.take i).countP (fun h => registeredDomain h = registeredDomain hostname) →
    ∀ (k : Nat) other, i ≤ k → queue[k]? = some other →
      capacityOf (registeredDomain other) ≤ (queue.take i).countP (fun h => registeredDomain h = registeredDomain other)

section Picks
variable {rotation eabLookup} {s : Tables} {now : Int} {domain : String}

def consider (now : Int) (domain : String) (s : Tables) (best : Option (String × Int)) (ca : CaProfile) : Option (String × Int) :=
  if usable eabLookup ca && (decide (0 < headroom now ca.name domain s) && better (headroom now ca.name domain s) best) then
    some (ca.name,headroom now ca.name domain s)
  else best

def pick (rotation : List CaProfile) (eabLookup : String → Option String × Option String) (now : Int) (domain : String) (s : Tables) : Option String :=
  (rotation.foldl (@consider eabLookup now domain s) none).map Prod.fst

theorem pickRuns (s : Tables) (now : Int) (domain : String) :
    Runs (pickCaWith rotation eabLookup domain now) s (pick rotation eabLookup now domain s) s := by
  unfold pickCaWith
  refine runsBind (runsFold (g := @consider eabLookup now domain s) ?_ rotation none) (runsPure _ s)
  intro best ca
  unfold pickOne consider usable
  by_cases missing : (ca.requiresEab && ((eabLookup ca.name).1.isNone || (eabLookup ca.name).2.isNone)) = true
  · rw [if_pos missing, missing]
    exact runsPure best s
  · rw [if_neg missing, Bool.not_eq_true] at *
    rw [missing, Bool.not_false, Bool.true_and]
    dsimp only
    refine runsBind (a := ((issued ca.name domain (now - budgetWindowSecs) s : Int),(reserved ca.name domain s : Int)))
      (runsBind (runsSelect _ s) (runsBind (runsSelect _ s) (runsPure _ s))) ?_
    by_cases room : (decide (0 < headroom now ca.name domain s) && better (headroom now ca.name domain s) best) = true
    · rw [if_pos room]
      exact (congrArg (fun x : Work _ => Runs x s _ s) (if_pos room)).mpr (runsPure _ s)
    · rw [if_neg room]
      exact (congrArg (fun x : Work _ => Runs x s _ s) (if_neg room)).mpr (runsPure _ s)

/- Who is picked has room, and if nobody is, nobody has. -/
theorem considered (best : Option (String × Int)) :
    rotation.foldl (@consider eabLookup now domain s) none = best →
    (best = none → ∀ ca ∈ rotation, usable eabLookup ca = true → headroom now ca.name domain s ≤ 0) ∧
    ∀ b, best = some b → b.1 ∈ usableNames rotation eabLookup ∧ 0 < headroom now b.1 domain s := by
  induction rotation using List.reverseRecOn generalizing best with
  | nil =>
    rintro rfl
    exact ⟨fun _ ca mem => by contradiction,fun b found => by contradiction⟩
  | append_singleton front ca ih =>
    intro result
    rw [List.foldl_append, List.foldl_cons, List.foldl_nil] at result
    obtain ⟨none',some'⟩ := ih _ rfl
    have wider : ∀ name, name ∈ usableNames front eabLookup → name ∈ usableNames (front ++ [ca]) eabLookup := by
      intro name mem
      rw [usableNames, List.mem_toFinset] at *
      rw [List.filter_append, List.map_append]
      exact List.mem_append_left _ mem
    rw [consider] at result
    split at result
    case isTrue takes =>
      subst result
      simp only [Bool.and_eq_true, decide_eq_true_eq] at takes
      refine ⟨fun none'' => by contradiction,?_⟩
      rintro b found
      cases found
      refine ⟨?_,takes.2.1⟩
      rw [usableNames, List.mem_toFinset, List.filter_append, List.map_append]
      exact List.mem_append_right _ (by simp [takes.1])
    case isFalse leaves =>
      subst result
      refine ⟨?_,fun b found => ⟨wider b.1 (some' b found).1,(some' b found).2⟩⟩
      intro nobody other mem able
      obtain before | here := List.mem_append.mp mem
      · exact none' nobody other before able
      · cases List.mem_singleton.mp here
        rw [nobody, able] at leaves
        simp only [better, Option.all_none, Bool.and_true, Bool.true_and, decide_eq_true_eq] at leaves
        exact not_lt.mp leaves

theorem usableIff {name : String} : name ∈ usableNames rotation eabLookup ↔ ∃ ca ∈ rotation, usable eabLookup ca = true ∧ ca.name = name := by
  simp [usableNames, and_assoc]

/- Where nobody is picked the domain has nothing left. -/
theorem pickNone : pick rotation eabLookup now domain s = none ↔ capacity rotation eabLookup now domain s = 0 := by
  obtain ⟨none',some'⟩ := @considered rotation eabLookup s now domain _ rfl
  rw [pick, Option.map_eq_none_iff, capacity, Finset.sum_eq_zero_iff]
  constructor
  · intro nobody name mem
    obtain ⟨ca,inside,able,rfl⟩ := usableIff.mp mem
    exact Int.toNat_of_nonpos (none' nobody ca inside able)
  · intro empty
    by_contra somebody
    obtain ⟨b,found⟩ := Option.ne_none_iff_exists'.mp somebody
    obtain ⟨mem,room⟩ := some' b found
    have zero := empty b.1 mem
    omega

theorem pickSome {ca : String} (picked : pick rotation eabLookup now domain s = some ca) :
    ca ∈ usableNames rotation eabLookup ∧ 0 < headroom now ca domain s := by
  obtain ⟨b,found,rfl⟩ := Option.map_eq_some_iff.mp picked
  exact (considered _ rfl).2 b found

end Picks

/- What an offer to a hostname that waits does to the others, and to what the domains have left. -/
section Offers
variable {rotation eabLookup} {s : Tables} {now : Int} {hostname ca : String}

def Waits (s : Tables) (hostname : String) : Prop := ∃ (id : String) (r : TunnelRow), s.tunnels[id]? = some r ∧ r.hostname = some hostname ∧ waiting r = true

def offer (now : Int) (hostname ca : String) (s : Tables) : Tables :=
  Tables.updated (unassigned hostname) (offered ca now (now + claimWindowSecs)) s

theorem offerWrites (distinct : Distinct s.tunnels) {id : String} {r : TunnelRow} (found : s.tunnels[id]? = some r) (named : r.hostname = some hostname)
    (waits : waiting r = true) : offer now hostname ca s = { s with tunnels := s.tunnels.insert id (offered ca now (now + claimWindowSecs) r) } := by
  obtain ⟨_,_,free,_⟩ := (QueueOrder.waitingIff r).mp waits
  have hit : unassigned hostname id r = true := by simp [unassigned, named, free]
  rw [offer, Tables.updated, writtenNamed distinct found named hit]
  intro k t touched
  rw [unassigned, Bool.and_eq_true, decide_eq_true_eq] at touched
  exact touched.1

theorem offerDistinct (distinct : Distinct s.tunnels) : Distinct (offer now hostname ca s).tunnels := distinctUpdated distinct (fun _ => rfl)

theorem offerWaits (distinct : Distinct s.tunnels) (waits : Waits s hostname) (other : String) :
    Waits (offer now hostname ca s) other ↔ Waits s other ∧ other ≠ hostname := by
  obtain ⟨id,r,found,named,waits⟩ := waits
  rw [offerWrites distinct found named waits]
  constructor
  · rintro ⟨k,t,here,called,still⟩
    dsimp only at here
    rw [lookupInsert] at here
    split at here
    case isTrue =>
      cases Option.some.inj here
      exact absurd still (by simp [waiting, offered])
    case isFalse apart =>
      refine ⟨⟨k,t,here,called,still⟩,?_⟩
      rintro rfl
      exact apart (distinct k id t r other here found called named)
  · rintro ⟨⟨k,t,here,called,still⟩,apart⟩
    refine ⟨k,t,?_,called,still⟩
    dsimp only
    rw [lookupInsert, if_neg, here]
    rintro rfl
    rw [found] at here
    cases Option.some.inj here
    exact apart (Option.some.inj (called.symm.trans named))

theorem offerHeadroom (distinct : Distinct s.tunnels) (waits : Waits s hostname) (also domain : String) :
    headroom now also domain s = headroom now also domain (offer now hostname ca s) + if ca = also ∧ registeredDomain hostname = domain then 1 else 0 := by
  obtain ⟨id,r,found,named,waits⟩ := waits
  obtain ⟨_,closed,_,_⟩ := (QueueOrder.waitingIff r).mp waits
  have moved := reservedWritten found (offered ca now (now + claimWindowSecs) r) also domain
  have before : holds also domain r = false := by simp [holds, closed]
  have after : holds also domain (offered ca now (now + claimWindowSecs) r) = (decide (ca = also) && decide (registeredDomain hostname = domain)) := by
    simp [holds, offered, named]
  rw [before, after] at moved
  simp only [Bool.and_eq_true, decide_eq_true_eq, Bool.false_eq_true, if_false, Nat.add_zero] at moved
  rw [offerWrites distinct found named waits, headroom, headroom, moved]
  have issuedSame : issued also domain (now - budgetWindowSecs) { s with tunnels := s.tunnels.insert id (offered ca now (now + claimWindowSecs) r) } =
      issued also domain (now - budgetWindowSecs) s := rfl
  rw [issuedSame]
  split <;> omega

/- An offer takes one from what its domain has left, and nothing from another. -/
theorem offerCapacity (distinct : Distinct s.tunnels) (waits : Waits s hostname) (picked : pick rotation eabLookup now (registeredDomain hostname) s = some ca)
    (domain : String) : capacity rotation eabLookup now domain s =
      capacity rotation eabLookup now domain (offer now hostname ca s) + if registeredDomain hostname = domain then 1 else 0 := by
  obtain ⟨mem,room⟩ := pickSome picked
  have each := @offerHeadroom s now _ ca distinct waits
  rw [capacity, capacity, ← Finset.add_sum_erase _ _ mem, ← Finset.add_sum_erase _ _ mem]
  have rest : ∀ name ∈ (usableNames rotation eabLookup).erase ca, (headroom now name domain s).toNat = (headroom now name domain (offer now hostname ca s)).toNat := by
    intro name inside
    rw [each name domain, if_neg (fun both => Finset.ne_of_mem_erase inside both.1.symm), Int.add_zero]
  rw [Finset.sum_congr rfl rest]
  have own := each ca domain
  by_cases same : registeredDomain hostname = domain
  · subst same
    rw [if_pos ⟨rfl,rfl⟩] at own
    rw [if_pos rfl]
    omega
  · rw [if_neg (fun both => same both.2), Int.add_zero] at own
    rw [if_neg same, own, Nat.add_zero]

end Offers
/- What the pass makes of the tables. -/
def admitted (now : Int) : List String → Tables → Tables
  | [], s => s
  | hostname :: queue, s =>
    match pick rotation eabLookup now (registeredDomain hostname) s with
    | some ca => admitted now queue (offer now hostname ca s)
    | none => s

section Passes
variable {rotation eabLookup} {s : Tables} {now : Int}

theorem admitRuns (now : Int) (queue : List String) (s : Tables) : Runs (admitEach rotation eabLookup now queue) s () (admitted rotation eabLookup now queue s) := by
  induction queue generalizing s with
  | nil => exact runsPure () s
  | cons hostname queue ih =>
    rw [admitEach, admitted]
    refine runsBind (runsAttempt (pickRuns s now (registeredDomain hostname))) ?_
    cases pick rotation eabLookup now (registeredDomain hostname) s with
    | none => exact runsPure () s
    | some ca => exact runsBind (runsAttempt (runsBind (runsExecute _ s) (runsPure _ _))) (ih _)

/- The sweep comes to the same when it is left alone. -/
theorem aloneRuns (now : Int) (queue : List String) (s : Tables) :
    ∃ n, Runs (alone rotation eabLookup now n (.listed now queue)) s .idle (admitted rotation eabLookup now queue s) := by
  induction queue generalizing s with
  | nil => exact ⟨1,runsBind (runsPure _ s) (runsPure _ s)⟩
  | cons hostname queue ih =>
    rw [admitted]
    cases picked : pick rotation eabLookup now (registeredDomain hostname) s with
    | none =>
      refine ⟨1,runsBind (a := .idle) (runsBind (runsAttempt (pickRuns s now (registeredDomain hostname))) ?_) (runsPure _ s)⟩
      rw [picked]
      exact runsPure _ s
    | some ca =>
      obtain ⟨n,rest⟩ := ih (offer now hostname ca s)
      have picking : Runs (Sweep.work rotation eabLookup now (.listed now (hostname :: queue))) s (.picked now hostname ca queue) s := by
        refine runsBind (runsAttempt (pickRuns s now (registeredDomain hostname))) ?_
        rw [picked]
        exact runsPure _ s
      have offering : Runs (Sweep.work rotation eabLookup now (.picked now hostname ca queue)) s (.listed now queue) (offer now hostname ca s) :=
        runsBind (runsAttempt (runsBind (runsExecute _ s) (runsPure _ _))) (runsPure _ _)
      exact ⟨n + 2,runsBind picking (runsBind offering rest)⟩

/- Nobody waits for a domain that has anything left. -/
def Complete (rotation : List CaProfile) (eabLookup : String → Option String × Option String) (now : Int) (s : Tables) : Prop :=
  ∀ hostname, Waits s hostname → capacity rotation eabLookup now (registeredDomain hostname) s = 0

theorem fitsCons {before after : String → Nat} {hostname : String} {queue : List String}
    (taken : ∀ domain, before domain = after domain + if registeredDomain hostname = domain then 1 else 0) :
    Fits before (hostname :: queue) ↔ Fits after queue := by
  have shift : ∀ (i : Nat) (domain : String), before domain ≤ ((hostname :: queue).take (i + 1)).countP (fun h => registeredDomain h = domain) ↔
      after domain ≤ (queue.take i).countP (fun h => registeredDomain h = domain) := by
    intro i domain
    rw [taken domain, List.take_succ_cons, List.countP_cons]
    simp only [decide_eq_true_eq]
    omega
  constructor
  · intro fits i name here over' k other behind there
    exact (shift i _).mp (fits (i + 1) name here ((shift i _).mpr over') (k + 1) other (by omega) there)
  · intro fits i name here over' k other behind there
    cases i with
    | zero =>
      cases here
      rw [taken, if_pos rfl, List.take_zero, List.countP_nil] at over'
      omega
    | succ i =>
      cases k with
      | zero => omega
      | succ k => exact (shift i _).mpr (fits i name here ((shift i _).mp over') k other (by omega) there)

/- Which queues a pass gets through, as far as the budgets go. -/
theorem completeIff {queue : List String} (distinct : Distinct s.tunnels) (apart : queue.Nodup) (queued : ∀ hostname, Waits s hostname ↔ hostname ∈ queue) :
    Complete rotation eabLookup now (admitted rotation eabLookup now queue s) ↔ Fits (fun domain => capacity rotation eabLookup now domain s) queue := by
  induction queue generalizing s with
  | nil =>
    refine iff_of_true (fun hostname waits => absurd ((queued hostname).mp waits) List.not_mem_nil) ?_
    intro i hostname here
    simp at here
  | cons hostname queue ih =>
    obtain ⟨fresh,later⟩ := List.nodup_cons.mp apart
    have waits : Waits s hostname := (queued hostname).mpr List.mem_cons_self
    rw [admitted]
    cases picked : pick rotation eabLookup now (registeredDomain hostname) s with
    | none =>
      have empty := pickNone.mp picked
      dsimp only
      constructor
      · intro complete i name here _ k other _ there
        have mem : other ∈ hostname :: queue := List.mem_of_getElem? there
        exact (complete other ((queued other).mpr mem)).le.trans (Nat.zero_le _)
      · intro fits other waits'
        obtain ⟨k,there⟩ := List.mem_iff_getElem?.mp ((queued other).mp waits')
        exact Nat.le_zero.mp (fits 0 hostname rfl (empty.le.trans (Nat.zero_le _)) k other (Nat.zero_le _) there)
    | some ca =>
      have still : ∀ other, Waits (offer now hostname ca s) other ↔ other ∈ queue := by
        intro other
        rw [offerWaits distinct waits, queued, List.mem_cons]
        constructor
        · rintro ⟨rfl | mem,different⟩
          · exact absurd rfl different
          · exact mem
        · intro mem
          exact ⟨.inr mem,fun same => fresh (same ▸ mem)⟩
      dsimp only
      rw [ih (offerDistinct distinct) later still]
      exact (fitsCons (offerCapacity distinct waits picked)).symm

theorem namesRead {rows : List TunnelRow} {names : List String} (read : namesOf rows = .ok names) : rows.map TunnelRow.hostname = names.map some := by
  induction rows generalizing names with
  | nil =>
    cases Except.ok.inj read
    rfl
  | cons r rest ih =>
    rw [namesOf] at read
    cases named : r.hostname with
    | none =>
      rw [named] at read
      contradiction
    | some hostname =>
      rw [named] at read
      obtain ⟨later,read',rfl⟩ := Machine.mapOk.mp read
      rw [List.map_cons, List.map_cons, named, ih read']

/- The queue as it is read has the hostnames of those who wait. -/
theorem queueHostnames {queue : List String} (listed : perform gelbQueueFifo s [] = (.ok queue,s)) :
    namesOf (((s.tunnels.toList.map Prod.snd).filter waiting).mergeSort queueOrder) = .ok queue ∧
    ((s.tunnels.toList.filter (fun e => waiting e.2)).map (fun e => e.2.hostname)).Perm (queue.map some) := by
  cases read : namesOf (((s.tunnels.toList.map Prod.snd).filter waiting).mergeSort queueOrder) with
  | error e =>
    unfold perform gelbQueueFifo statement at listed
    simp only [List.headD_nil, Bool.false_eq_true, if_false, read] at listed
    exact absurd (Prod.mk.inj listed).1 (by simp)
  | ok names =>
    cases (Prod.mk.inj ((performQueue s names read).symm.trans listed)).1
    refine ⟨rfl,?_⟩
    have perm := (List.mergeSort_perm ((s.tunnels.toList.map Prod.snd).filter waiting) queueOrder).map TunnelRow.hostname
    rw [namesRead read, List.filter_map, List.map_map] at perm
    exact perm.symm

theorem namedRows {queue : List String} (listed : perform gelbQueueFifo s [] = (.ok queue,s)) {id : String} {r : TunnelRow}
    (found : s.tunnels[id]? = some r) (waits : waiting r = true) : ∃ hostname ∈ queue, r.hostname = some hostname := by
  have mem : (id,r) ∈ s.tunnels.toList.filter (fun e => waiting e.2) :=
    List.mem_filter.mpr ⟨ExtTreeMap.mem_toList_iff_getElem?_eq_some.mpr found,waits⟩
  have inside : r.hostname ∈ queue.map some := (queueHostnames listed).2.mem_iff.mp (List.mem_map.mpr ⟨(id,r),mem,rfl⟩)
  obtain ⟨hostname,here,same⟩ := List.mem_map.mp inside
  exact ⟨hostname,here,same.symm⟩

/- Who waits stands in it, each once. -/
theorem queueRead {queue : List String} (distinct : Distinct s.tunnels) (listed : perform gelbQueueFifo s [] = (.ok queue,s)) :
    Runs gelbQueueFifo s queue s ∧ queue.Nodup ∧ ∀ hostname, Waits s hostname ↔ hostname ∈ queue := by
  obtain ⟨read,hostnames⟩ := queueHostnames listed
  refine ⟨?_,?_,?_⟩
  · rw [Runs, gelbQueueFifo, statement]
    simp only [List.headD_nil, Bool.false_eq_true, if_false, read]
    rfl
  · have apart : ((s.tunnels.toList.filter (fun e => waiting e.2)).map (fun e => e.2.hostname)).Nodup := by
      refine ((entriesNodup s.tunnels).filter _).map_on ?_
      intro a here b there both
      obtain ⟨inside,waits⟩ := List.mem_filter.mp here
      have found := ExtTreeMap.mem_toList_iff_getElem?_eq_some.mp inside
      have found' := ExtTreeMap.mem_toList_iff_getElem?_eq_some.mp (List.mem_filter.mp there).1
      obtain ⟨hostname,_,named⟩ := namedRows listed found waits
      have keys := distinct a.1 b.1 a.2 b.2 hostname found found' named (both.symm.trans named)
      refine Prod.ext keys ?_
      rw [keys, found'] at found
      exact (Option.some.inj found).symm
    exact List.Nodup.of_map some (hostnames.nodup_iff.mp apart)
  · intro hostname
    constructor
    · rintro ⟨id,r,found,named,waits⟩
      obtain ⟨name,inside,same⟩ := namedRows listed found waits
      cases named.symm.trans same
      exact inside
    · intro inside
      obtain ⟨e,mem,named⟩ := List.mem_map.mp (hostnames.mem_iff.mpr (List.mem_map.mpr ⟨hostname,inside,rfl⟩))
      obtain ⟨here,waits⟩ := List.mem_filter.mp mem
      exact ⟨e.1,e.2,ExtTreeMap.mem_toList_iff_getElem?_eq_some.mp here,named,waits⟩

/- Where everyone who waits has a name the queue can be read. -/
theorem queueReadable (named : ∀ (id : String) (r : TunnelRow), s.tunnels[id]? = some r → waiting r = true → r.hostname ≠ none) :
    ∃ queue, perform gelbQueueFifo s [] = (.ok queue,s) := by
  obtain ⟨names,read,_⟩ := @namesOfSome (((s.tunnels.toList.map Prod.snd).filter waiting).mergeSort queueOrder) (by
    intro r mem
    obtain ⟨inside,waits⟩ := List.mem_filter.mp ((List.mergeSort_perm _ _).mem_iff.mp mem)
    obtain ⟨e,here,rfl⟩ := List.mem_map.mp inside
    exact named e.1 e.2 (ExtTreeMap.mem_toList_iff_getElem?_eq_some.mp here) waits)
  exact ⟨names,performQueue s names read⟩

theorem admittedDistinct (queue : List String) (distinct : Distinct s.tunnels) : Distinct (admitted rotation eabLookup now queue s).tunnels := by
  induction queue generalizing s with
  | nil => exact distinct
  | cons hostname queue ih =>
    rw [admitted]
    cases pick rotation eabLookup now (registeredDomain hostname) s with
    | none => exact distinct
    | some ca => exact ih (offerDistinct distinct)

theorem capacityZero {domain : String} : capacity rotation eabLookup now domain s = 0 ↔
    ∀ ca ∈ rotation, usable eabLookup ca = true → ¬Room ca.name domain (now - budgetWindowSecs) s := by
  rw [capacity, Finset.sum_eq_zero_iff]
  constructor
  · intro empty ca mem able room
    have none' := empty ca.name (usableIff.mpr ⟨ca,mem,able,rfl⟩)
    rw [Room] at room
    rw [headroom] at none'
    omega
  · intro full name mem
    obtain ⟨ca,inside,able,rfl⟩ := usableIff.mp mem
    have over' := full ca inside able
    rw [Room] at over'
    rw [headroom]
    omega

/- After the pass nobody waits who did not before. -/
theorem admittedWaits (queue : List String) {id : String} {r : TunnelRow} (found : (admitted rotation eabLookup now queue s).tunnels[id]? = some r)
    (waits : waiting r = true) : s.tunnels[id]? = some r := by
  induction queue generalizing s with
  | nil => exact found
  | cons hostname queue ih =>
    rw [admitted] at found
    cases picked : pick rotation eabLookup now (registeredDomain hostname) s with
    | none =>
      rw [picked] at found
      exact found
    | some ca =>
      rw [picked] at found
      have before := ih found
      rw [offer, lookupUpdatedRow] at before
      obtain ⟨old,here,same⟩ := Option.map_eq_some_iff.mp before
      split at same
      · rw [← same] at waits
        exact absurd waits (by simp [waiting, offered])
      · rw [here, same]

/- The pass leaves nobody waiting for a domain with room just if the budgets of the domains run out in the order of the queue:
where one is used up, so are those of all who stand behind. -/
theorem sweepComplete (rotation : List CaProfile) (eabLookup : String → Option String × Option String) (now : Int) {s : Tables} {queue : List String}
    (distinct : Distinct s.tunnels) (listed : perform gelbQueueFifo s [] = (.ok queue,s)) :
    ∃ m left, perform (admitQueue rotation eabLookup now) s [] = (.ok (),m) ∧ perform gelbQueueFifo m [] = (.ok left,m) ∧
      ((∀ hostname ∈ left, ∀ ca ∈ rotation, usable eabLookup ca = true → ¬Room ca.name (registeredDomain hostname) (now - budgetWindowSecs) m) ↔
        Fits (fun domain => capacity rotation eabLookup now domain s) queue) := by
  obtain ⟨read,apart,queued⟩ := queueRead distinct listed
  have named : ∀ (id : String) (r : TunnelRow), (admitted rotation eabLookup now queue s).tunnels[id]? = some r → waiting r = true → r.hostname ≠ none := by
    intro id r found waits
    obtain ⟨hostname,_,same⟩ := namedRows listed (admittedWaits queue found waits) waits
    exact same ▸ Option.some_ne_none hostname
  obtain ⟨left,after⟩ := queueReadable named
  refine ⟨admitted rotation eabLookup now queue s,left,runsPerform (runsBind read (admitRuns now queue s)),after,?_⟩
  rw [← completeIff distinct apart queued]
  obtain ⟨_,_,waiting'⟩ := queueRead (admittedDistinct queue distinct) after
  constructor
  · intro full hostname waits
    exact capacityZero.mpr (full hostname ((waiting' hostname).mp waits))
  · intro complete hostname mem
    exact capacityZero.mp (complete hostname ((waiting' hostname).mpr mem))

end Passes

/- Two hostnames wait. The certificates of the first one's domain are used up, those of the other's are not. -/
def spent (n : Nat) : BTreeMap Nat IssuanceRow := (List.range n).foldl (fun log i => log.insert i ⟨"letsencrypt","a.example","x.a.example",0⟩) ∅

def waitingSince (hostname : String) (queuedAt : Int) : TunnelRow := { red hostname with status := .gelb, queuedAt := some queuedAt }

def exhausted : Tables :=
  { tunnels := ((∅ : BTreeMap String TunnelRow).insert "1" (waitingSince "w.a.example" 1)).insert "2" (waitingSince "w.b.example" 2)
    issuanceLog := spent 40, issuanceSeq := 40 }

theorem exhaustedRows {id : String} {r : TunnelRow} (found : exhausted.tunnels[id]? = some r) :
    id = "1" ∧ r = waitingSince "w.a.example" 1 ∨ id = "2" ∧ r = waitingSince "w.b.example" 2 := by
  simp only [exhausted, lookupInsert] at found
  split at found
  case isTrue same => exact .inr ⟨same,(Option.some.inj found).symm⟩
  case isFalse =>
    split at found
    case isTrue same => exact .inl ⟨same,(Option.some.inj found).symm⟩
    case isFalse => simp at found

theorem exhaustedDistinct : Distinct exhausted.tunnels := by
  intro a b r t h here there named also
  obtain ⟨rfl,rfl⟩ | ⟨rfl,rfl⟩ := exhaustedRows here <;> obtain ⟨rfl,rfl⟩ | ⟨rfl,rfl⟩ := exhaustedRows there <;> try rfl
  all_goals
    rw [← also] at named
    exact absurd named (by decide)

theorem exhaustedQueue : perform gelbQueueFifo exhausted [] = (.ok ["w.a.example","w.b.example"],exhausted) := by
  refine performQueue _ _ ?_
  have rows : (exhausted.tunnels.toList.map Prod.snd).filter waiting = [waitingSince "w.a.example" 1,waitingSince "w.b.example" 2] := by decide
  rw [rows, List.mergeSort_of_pairwise (by decide)]
  rfl

theorem exhaustedSwept : ∃ m left, perform (admitQueue [letsEncrypt] (fun _ => (none,none)) 1000) exhausted [] = (.ok (),m) ∧
    perform gelbQueueFifo m [] = (.ok left,m) ∧
    ((∀ hostname ∈ left, ∀ ca ∈ [letsEncrypt], usable (fun _ => (none,none)) ca = true →
        ¬Room ca.name (registeredDomain hostname) (1000 - budgetWindowSecs) m) ↔
      Fits (fun domain => capacity [letsEncrypt] (fun _ => (none,none)) 1000 domain exhausted) ["w.a.example","w.b.example"]) :=
  sweepComplete [letsEncrypt] (fun _ => (none,none)) 1000 exhaustedDistinct exhaustedQueue

/- The second waits on, with room for its domain. -/
theorem exhaustedLeft : ∃ m, perform (admitQueue [letsEncrypt] (fun _ => (none,none)) 1000) exhausted [] = (.ok (),m) ∧
    perform gelbQueueFifo m [] = (.ok ["w.a.example","w.b.example"],m) ∧ Room "letsencrypt" (registeredDomain "w.b.example") (1000 - budgetWindowSecs) m := by
  have nobody : pick [letsEncrypt] (fun _ => (none,none)) 1000 (registeredDomain "w.a.example") exhausted = none := by decide +kernel
  have kept : admitted [letsEncrypt] (fun _ => (none,none)) 1000 ["w.a.example","w.b.example"] exhausted = exhausted := by
    rw [admitted, nobody]
  have ran := runsPerform (runsBind (queueRead exhaustedDistinct exhaustedQueue).1
    (@admitRuns [letsEncrypt] (fun _ => (none,none)) 1000 ["w.a.example","w.b.example"] exhausted))
  rw [kept] at ran
  have room : (issued "letsencrypt" (registeredDomain "w.b.example") (1000 - budgetWindowSecs) exhausted +
      reserved "letsencrypt" (registeredDomain "w.b.example") exhausted : Int) < budgetFor "letsencrypt" := by decide +kernel
  exact ⟨exhausted,ran,exhaustedQueue,room⟩

end CadsTunnel.SweepCompleteness
