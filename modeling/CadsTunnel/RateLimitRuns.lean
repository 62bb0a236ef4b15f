import CadsTunnel.RateLimit

/-! Runs of the keyed rate limiter. With a cap the queue lists the tracked keys and the map
stays within the cap; without one each key gets its budget in each window. -/
namespace CadsTunnel.RateLimit
namespace KeyedRateLimiter
open OrderedMap
variable {K : Type} [Ord K] [Std.TransOrd K] [Std.LawfulEqOrd K] [DecidableEq K]

/- The calls in order: who asks, and in which window. -/
def run : List (K × UInt64) → KeyedRateLimiter K → List Bool × KeyedRateLimiter K
  | [], l => ([],l)
  | (key,window) :: calls, l =>
    let (answer,l) := l.allow key window
    let (answers,l) := run calls l
    (answer :: answers,l)

def attempts (calls : List (K × UInt64)) (key : K) (window : UInt64) : Nat := calls.countP fun call => call = (key,window)

def allowed (calls : List (K × UInt64)) (answers : List Bool) (key : K) (window : UInt64) : Nat :=
  (calls.zip answers).countP fun call => call.1 = (key,window) ∧ call.2

/- What a key has used of a window's budget. -/
def spent (l : KeyedRateLimiter K) (key : K) (window : UInt64) : UInt32 :=
  match l.counters[key]? with
  | some (w,count) => if w = window then count else 0
  | none => 0

section Steps
variable {l : KeyedRateLimiter K} {key k : K} {window later : UInt64}

omit [Std.LawfulEqOrd K] [DecidableEq K] in
theorem sweepKeeps : (l.sweep window).maxPerWindow = l.maxPerWindow ∧ (l.sweep window).maxTrackedKeys = l.maxTrackedKeys := by
  unfold sweep
  split <;> exact ⟨rfl,rfl⟩

omit [Std.LawfulEqOrd K] [DecidableEq K] in
theorem makeRoomKeeps : (l.makeRoom key).maxPerWindow = l.maxPerWindow ∧ (l.makeRoom key).maxTrackedKeys = l.maxTrackedKeys := by
  unfold makeRoom
  split
  · exact ⟨rfl,rfl⟩
  · split
    · exact ⟨rfl,rfl⟩
    · exact ⟨rfl,rfl⟩

omit [DecidableEq K] in
theorem sweepLookup (k : K) :
    (l.sweep window).counters[k]? = l.counters[k]? ∨ (l.sweep window).counters[k]? = none ∧ ∃ entry, l.counters[k]? = some entry ∧ entry.1 < window := by
  unfold sweep
  split
  · dsimp only
    rw [Std.ExtTreeMap.getElem?_filter']
    cases found : l.counters[k]? with
    | none => exact .inl rfl
    | some entry =>
      rw [Option.filter_some]
      split
      · exact .inl rfl
      · rename_i dropped
        exact .inr ⟨rfl,entry,rfl,by simpa using dropped⟩
  · exact .inl rfl

/- A sweep touches no budget of its window or a later one. -/
omit [DecidableEq K] in
theorem sweepSpent (reached : window ≤ later) : (l.sweep window).spent k later = l.spent k later := by
  rcases @sweepLookup _ _ _ _ l window k with same | ⟨gone,entry,found,past⟩
  · rw [spent, spent, same]
  · rw [spent, spent, gone, found]
    have other : entry.1 ≠ later := fun same => absurd reached (UInt64.not_le.mpr (same ▸ past))
    exact (if_neg other).symm

theorem evictAbsent {counters : BTreeMap K (UInt64 × UInt32)} (order : List K) (absent : counters[k]? = none) :
    (evict counters order).1[k]? = none := by
  induction order with
  | nil => exact absent
  | cons oldest rest ih =>
    rw [evict]
    split
    · rw [lookupErase, absent, ite_self]
    · exact ih

/- Room is made for a key only if it has used nothing. -/
theorem roomSpent (window : UInt64) : (l.makeRoom key).spent key window = l.spent key window := by
  unfold makeRoom
  split
  · rfl
  · rename_i untracked
    have absent : l.counters[key]? = none := by simpa using untracked
    split
    · rename_i cap _
      have gone : (if cap ≤ l.counters.size then evict l.counters l.insertionOrder else (l.counters,l.insertionOrder)).1[key]? = none := by
        split
        · exact evictAbsent _ absent
        · exact absent
      rw [spent, spent, absent]
      dsimp only
      rw [gone]
    · rfl

/- What a call answers and writes. -/
theorem allowSpent (l : KeyedRateLimiter K) (key : K) (window : UInt64) :
    l.allow key window =
      if l.maxPerWindow ≤ l.spent key window then
        (false,{ (l.sweep window).makeRoom key with
          counters := ((l.sweep window).makeRoom key).counters.insert key (window,l.spent key window) })
      else
        (true,{ (l.sweep window).makeRoom key with
          counters := ((l.sweep window).makeRoom key).counters.insert key (window,l.spent key window + 1) }) := by
  have budget : ((l.sweep window).makeRoom key).maxPerWindow = l.maxPerWindow := makeRoomKeeps.1.trans sweepKeeps.1
  have used : ((l.sweep window).makeRoom key).spent key window = l.spent key window :=
    (roomSpent window).trans (sweepSpent (UInt64.le_refl window))
  have entry : (if (((l.sweep window).makeRoom key).counters[key]?.getD (window,0)).1 ≠ window then (window,0)
      else ((l.sweep window).makeRoom key).counters[key]?.getD (window,0)) = (window,l.spent key window) := by
    rw [← used, spent]
    cases found : ((l.sweep window).makeRoom key).counters[key]? with
    | none => simp
    | some entry =>
      obtain ⟨w,count⟩ := entry
      by_cases same : w = window
      · simp [same]
      · simp [same]
  rw [allow]
  dsimp only
  rw [entry, budget]

/- Asking ahead tells a refusal, but for a limiter that refuses everybody. -/
theorem overLimitRefuses : l.overLimit key window = true ↔
    (l.allow key window).1 = false ∧ ∃ count, l.counters[key]? = some (window,count) := by
  have refused : (l.allow key window).1 = false ↔ l.maxPerWindow ≤ l.spent key window := by
    rw [allowSpent]
    split
    · rename_i full
      exact iff_of_true rfl full
    · rename_i free
      exact iff_of_false (by simp) free
  rw [refused, overLimitEntry, spent]
  constructor
  · rintro ⟨count,found,full⟩
    rw [found]
    exact ⟨by simpa using full,count,rfl⟩
  · rintro ⟨full,count,found⟩
    rw [found] at full
    exact ⟨count,found,by simpa using full⟩

theorem refusedTracked (limited : l.maxPerWindow ≠ 0) (refused : (l.allow key window).1 = false) :
    ∃ count, l.counters[key]? = some (window,count) := by
  rw [allowSpent] at refused
  split at refused <;> try contradiction
  rename_i full
  have used : l.spent key window ≠ 0 := fun none => limited (UInt32.le_zero_iff.mp (none ▸ full))
  unfold spent at used
  split at used <;> try contradiction
  rename_i w count found
  split at used <;> try contradiction
  rename_i same
  exact ⟨count,same ▸ found⟩

end Steps

section Capped
variable {l : KeyedRateLimiter K} {key : K} {window : UInt64} {cap : Nat}

/- The queue lists the tracked keys, each once. -/
structure Lists (counters : BTreeMap K (UInt64 × UInt32)) (order : List K) : Prop where
  distinct : order.Nodup
  tracked : ∀ k, k ∈ order ↔ counters[k]?.isSome

omit [DecidableEq K] in
theorem listsSize {counters : BTreeMap K (UInt64 × UInt32)} {order : List K} (lists : Lists counters order) :
    counters.size = order.length := by
  have same : order.Perm counters.keys := by
    refine (List.perm_ext_iff_of_nodup lists.distinct counters.nodup_keys).mpr fun k => ?_
    rw [lists.tracked, Std.ExtTreeMap.mem_keys, Std.ExtTreeMap.mem_iff_isSome_getElem?]
  rw [same.length_eq, Std.ExtTreeMap.length_keys]

omit [DecidableEq K] in
theorem listsSwept {counters : BTreeMap K (UInt64 × UInt32)} {order : List K} (lists : Lists counters order)
    (p : K → UInt64 × UInt32 → Bool) : Lists (counters.filter p) (order.filter ((counters.filter p).contains ·)) := by
  refine ⟨lists.distinct.filter _,fun k => ?_⟩
  rw [List.mem_filter, lists.tracked, Std.ExtTreeMap.contains_eq_isSome_getElem?]
  refine and_iff_right_of_imp fun kept => ?_
  rw [Std.ExtTreeMap.getElem?_filter'] at kept
  cases found : counters[k]? with
  | none =>
    rw [found] at kept
    contradiction
  | some entry => rfl

theorem listsEvicted {counters : BTreeMap K (UInt64 × UInt32)} {order : List K} (lists : Lists counters order) :
    Lists (evict counters order).1 (evict counters order).2 ∧ (evict counters order).2 = order.tail := by
  cases order with
  | nil => exact ⟨lists,rfl⟩
  | cons oldest rest =>
    obtain ⟨fresh,distinct⟩ := List.nodup_cons.mp lists.distinct
    have held : counters.contains oldest := by
      rw [Std.ExtTreeMap.contains_eq_isSome_getElem?]
      exact (lists.tracked oldest).mp List.mem_cons_self
    rw [evict, if_pos held]
    refine ⟨⟨distinct,fun k => ?_⟩,rfl⟩
    rw [lookupErase]
    split
    · rename_i same
      subst same
      exact iff_of_false fresh (by simp)
    · rename_i other
      rw [← lists.tracked, List.mem_cons, or_iff_right other]

theorem listsInsert {counters : BTreeMap K (UInt64 × UInt32)} {order : List K} (lists : Lists counters order) (entry : UInt64 × UInt32) :
    Lists (counters.insert key entry) (if key ∈ order then order else order ++ [key]) := by
  split
  · rename_i held
    refine ⟨lists.distinct,fun k => ?_⟩
    rw [lookupInsert]
    split
    · rename_i same
      exact iff_of_true (same ▸ held) rfl
    · exact lists.tracked k
  · rename_i fresh
    refine ⟨List.nodup_append.mpr ⟨lists.distinct,List.nodup_singleton key,?_⟩,fun k => ?_⟩
    · intro a mem b single same
      rw [List.mem_singleton.mp single] at same
      exact fresh (same ▸ mem)
    · rw [lookupInsert, List.mem_append, List.mem_singleton]
      split
      · rename_i same
        exact iff_of_true (.inr same) rfl
      · rename_i other
        rw [or_iff_left other, lists.tracked]

/- The state of a limiter with a cap. -/
structure Within (cap : Nat) (l : KeyedRateLimiter K) : Prop where
  capped : l.maxTrackedKeys = some cap
  lists : Lists l.counters l.insertionOrder
  few : l.insertionOrder.length ≤ max 1 cap

omit [DecidableEq K] in
theorem withinSwept (within : Within cap l) (window : UInt64) : Within cap (l.sweep window) := by
  refine ⟨sweepKeeps.2.trans within.capped,?_,?_⟩
  · unfold sweep
    split
    · rw [within.capped]
      exact listsSwept within.lists _
    · exact within.lists
  · unfold sweep
    split
    · rw [within.capped]
      exact (List.length_filter_le _ _).trans within.few
    · exact within.few

/- Room for a key: a place in the queue and, if need be, one key less. -/
theorem withinRoom (within : Within cap l) (key : K) (entry : UInt64 × UInt32) :
    Within cap { l.makeRoom key with counters := (l.makeRoom key).counters.insert key entry } := by
  by_cases tracked : l.counters.contains key
  · have held : key ∈ l.insertionOrder := by
      rw [within.lists.tracked, ← Std.ExtTreeMap.contains_eq_isSome_getElem?]
      exact tracked
    have room : l.makeRoom key = l := if_pos tracked
    have lists : Lists _ (if key ∈ l.insertionOrder then _ else _) := listsInsert within.lists entry
    rw [if_pos held] at lists
    rw [room]
    exact ⟨within.capped,lists,within.few⟩
  · let kept := if cap ≤ l.counters.size then evict l.counters l.insertionOrder else (l.counters,l.insertionOrder)
    have room : l.makeRoom key = { l with counters := kept.1, insertionOrder := kept.2 ++ [key] } := by
      rw [makeRoom, if_neg tracked, within.capped]
    have size := listsSize within.lists
    have bound := within.few
    obtain ⟨lists,fits,fresh⟩ : Lists kept.1 kept.2 ∧ kept.2.length + 1 ≤ max 1 cap ∧ key ∉ kept.2 := by
      have absent : key ∉ l.insertionOrder := by
        rw [within.lists.tracked, ← Std.ExtTreeMap.contains_eq_isSome_getElem?]
        exact tracked
      by_cases full : cap ≤ l.counters.size
      · obtain ⟨lists,rest⟩ := listsEvicted within.lists
        have evicted : kept = evict l.counters l.insertionOrder := if_pos full
        rw [evicted, rest]
        refine ⟨rest ▸ lists,?_,fun mem => absent (List.mem_of_mem_tail mem)⟩
        rw [List.length_tail]
        omega
      · have same : kept = (l.counters,l.insertionOrder) := if_neg full
        rw [same]
        refine ⟨within.lists,?_,absent⟩
        dsimp only
        omega
    have listed : Lists _ (if key ∈ kept.2 then _ else _) := listsInsert lists entry
    rw [if_neg fresh] at listed
    rw [room]
    exact ⟨within.capped,listed,by rw [List.length_append]; exact fits⟩

theorem withinAllowed (within : Within cap l) (key : K) (window : UInt64) : Within cap (l.allow key window).2 := by
  rw [allowSpent]
  split
  · exact withinRoom (withinSwept within window) key _
  · exact withinRoom (withinSwept within window) key _

theorem withinRun (within : Within cap l) (calls : List (K × UInt64)) : Within cap (run calls l).2 := by
  induction calls generalizing l with
  | nil => exact within
  | cons call calls ih => exact ih (withinAllowed within call.1 call.2)

end Capped

section Budgets
variable {l : KeyedRateLimiter K} {window : UInt64}

/- The state of a limiter without a cap that has seen no window after `window`. -/
structure Behind (l : KeyedRateLimiter K) (window : UInt64) : Prop where
  uncapped : l.maxTrackedKeys = none
  past : ∀ (k : K) (entry : UInt64 × UInt32), l.counters[k]? = some entry → entry.1 ≤ window

omit [Std.LawfulEqOrd K] [DecidableEq K] in
theorem roomUncapped (uncapped : l.maxTrackedKeys = none) (key : K) : l.makeRoom key = l := by
  unfold makeRoom
  split
  · rfl
  · rw [uncapped]

/- A call in a window counts against its own key and window and leaves every other budget of
that window or a later one alone. -/
theorem allowBudget (behind : Behind l window) {key : K} {next : UInt64} (reached : window ≤ next) :
    (l.allow key next).2.maxPerWindow = l.maxPerWindow ∧ Behind (l.allow key next).2 next ∧
      ∀ k later, next ≤ later → (l.allow key next).2.spent k later =
        if (k,later) = (key,next) ∧ (l.allow key next).1 then l.spent k later + 1 else l.spent k later := by
  have room : (l.sweep next).makeRoom key = l.sweep next := roomUncapped (sweepKeeps.2.trans behind.uncapped) key
  have written (count : UInt32) :
      let after := { l.sweep next with counters := (l.sweep next).counters.insert key (next,count) }
      after.maxPerWindow = l.maxPerWindow ∧ Behind after next ∧
        ∀ k later, next ≤ later → after.spent k later = if (k,later) = (key,next) then count else l.spent k later := by
    refine ⟨sweepKeeps.1,⟨sweepKeeps.2.trans behind.uncapped,fun k entry found => ?_⟩,fun k later after => ?_⟩
    · rw [lookupInsert] at found
      split at found
      · cases found
        exact UInt64.le_refl next
      · rcases @sweepLookup _ _ _ _ l next k with same | ⟨gone,_⟩
        · exact UInt64.le_trans (behind.past k entry (same ▸ found)) reached
        · rw [gone] at found
          contradiction
    · rw [spent]
      dsimp only
      rw [lookupInsert]
      by_cases same : k = key
      · subst same
        rw [if_pos rfl]
        by_cases now : later = next
        · rw [now, if_pos rfl]
          exact if_pos rfl
        · have unspent : l.spent k later = 0 := by
            unfold spent
            split
            · rename_i w count found
              refine if_neg fun same => ?_
              have old := behind.past k _ found
              exact now (UInt64.le_antisymm (same ▸ UInt64.le_trans old reached) after)
            · rfl
          rw [if_neg fun both => now (Prod.mk.inj both).2, unspent]
          exact if_neg fun same => now same.symm
      · rw [if_neg same, if_neg fun both => same (Prod.mk.inj both).1]
        exact sweepSpent after
  rw [allowSpent, room]
  split
  · obtain ⟨limit,before,budgets⟩ := written (l.spent key next)
    refine ⟨limit,before,fun k later after => (budgets k later after).trans ?_⟩
    split
    · rename_i same
      cases same
      simp
    · rename_i other
      simp
  · obtain ⟨limit,before,budgets⟩ := written (l.spent key next + 1)
    refine ⟨limit,before,fun k later after => (budgets k later after).trans ?_⟩
    split
    · rename_i same
      cases same
      simp
    · rename_i other
      simp [other]

theorem runAllowed (behind : Behind l window) {calls : List (K × UInt64)} (reached : ∀ call ∈ calls, window ≤ call.2)
    (ordered : calls.Pairwise fun call next => call.2 ≤ next.2) (key : K) (w : UInt64) :
    allowed calls (run calls l).1 key w = min (attempts calls key w) (l.maxPerWindow.toNat - (l.spent key w).toNat) := by
  induction calls generalizing l window with
  | nil => simp [allowed, attempts]
  | cons call calls ih =>
    obtain ⟨k,next⟩ := call
    obtain ⟨after,ordered⟩ := List.pairwise_cons.mp ordered
    obtain ⟨limit,behind',budgets⟩ := @allowBudget _ _ _ _ _ l window behind k next (reached (k,next) List.mem_cons_self)
    have later := ih behind' after ordered
    rw [limit] at later
    have counted : allowed ((k,next) :: calls) (run ((k,next) :: calls) l).1 key w =
        allowed calls (run calls (l.allow k next).2).1 key w + if (k,next) = (key,w) ∧ (l.allow k next).1 then 1 else 0 := by
      rw [allowed, run, allowed, List.zip_cons_cons, List.countP_cons]
      simp only [decide_eq_true_eq]
    have tried : attempts ((k,next) :: calls) key w = attempts calls key w + if (k,next) = (key,w) then 1 else 0 := by
      rw [attempts, attempts, List.countP_cons]
      simp only [decide_eq_true_eq]
    rw [counted, tried, later]
    by_cases passed : next ≤ w
    · rw [budgets key w passed]
      by_cases same : (k,next) = (key,w)
      · obtain ⟨rfl,rfl⟩ := Prod.mk.inj same
        have answer := allowSpent l k next
        by_cases full : l.maxPerWindow ≤ l.spent k next
        · rw [if_pos full] at answer
          rw [answer]
          have none : l.maxPerWindow.toNat - (l.spent k next).toNat = 0 := Nat.sub_eq_zero_of_le (UInt32.le_iff_toNat_le.mp full)
          simp [none]
        · rw [if_neg full] at answer
          rw [answer]
          have less : (l.spent k next).toNat < l.maxPerWindow.toNat := UInt32.lt_iff_toNat_lt.mp (UInt32.not_le.mp full)
          have exact' : (l.spent k next + 1).toNat = (l.spent k next).toNat + 1 := by
            rw [UInt32.toNat_add, UInt32.toNat_one]
            exact Nat.mod_eq_of_lt (Nat.lt_of_le_of_lt less (UInt32.toNat_lt _))
          simp only [and_self, if_true, exact']
          omega
      · simp [same, Ne.symm same]
    · have unseen : attempts calls key w = 0 := by
        refine List.countP_eq_zero.mpr fun call mem same => passed ?_
        have same : call = (key,w) := by simpa using same
        have late := after call mem
        rwa [same] at late
      have other : (k,next) ≠ (key,w) := fun same => passed (by cases same; exact UInt64.le_refl _)
      simp [unseen, other]

end Budgets
/- With a cap the tracked keys are those of the queue, each there once, and no more than the
cap, or one. Without a cap each key is allowed its limit in each window. A limiter that allows
anybody says ahead exactly whom it would refuse; one that allows nobody says so only of the
keys it tracks in the window. -/
theorem limiterRuns (limit : UInt32) :
    (∀ (cap : Nat) (calls : List (K × UInt64)), let l := (run calls (withMaxTrackedKeys limit cap)).2
      l.trackedKeys ≤ max 1 cap ∧ l.insertionOrder.Nodup ∧ ∀ k, k ∈ l.insertionOrder ↔ l.counters.contains k) ∧
    (∀ calls : List (K × UInt64), calls.Pairwise (fun call next => call.2 ≤ next.2) → ∀ key window,
      allowed calls (run calls (new limit)).1 key window = min (attempts calls key window) limit.toNat) ∧
    (∀ (l : KeyedRateLimiter K) (key : K) (window : UInt64),
      (l.overLimit key window = true ↔ (l.allow key window).1 = false ∧ ∃ count, l.counters[key]? = some (window,count)) ∧
      (l.maxPerWindow ≠ 0 → (l.overLimit key window = true ↔ (l.allow key window).1 = false))) := by
  refine ⟨fun cap calls => ?_,fun calls ordered key window => ?_,fun l key window => ⟨overLimitRefuses,fun limited => ?_⟩⟩
  · have start : Within cap (withMaxTrackedKeys limit cap : KeyedRateLimiter K) :=
      ⟨rfl,⟨List.nodup_nil,fun k => by simp [withMaxTrackedKeys]⟩,Nat.zero_le _⟩
    have within := withinRun start calls
    refine ⟨(listsSize within.lists).trans_le within.few,within.lists.distinct,fun k => ?_⟩
    rw [within.lists.tracked, Std.ExtTreeMap.contains_eq_isSome_getElem?]
  · have start : Behind (new limit : KeyedRateLimiter K) 0 := ⟨rfl,fun k entry found => by simp [new] at found⟩
    have fresh : (new limit : KeyedRateLimiter K).spent key window = 0 := by simp [new, spent]
    rw [runAllowed start (fun call _ => UInt64.zero_le) ordered key window, fresh]
    rfl
  · rw [overLimitRefuses]
    exact and_iff_left_of_imp (refusedTracked limited)

theorem twoKeysLimited :
    (∀ (cap : Nat) (calls : List (Nat × UInt64)), let l := (run calls (withMaxTrackedKeys 2 cap)).2
      l.trackedKeys ≤ max 1 cap ∧ l.insertionOrder.Nodup ∧ ∀ k, k ∈ l.insertionOrder ↔ l.counters.contains k) ∧
    allowed [(7,0),(8,0),(7,0),(7,0),(7,1)] (run [(7,0),(8,0),(7,0),(7,0),(7,1)] (new 2)).1 7 0 = min 3 2 ∧
    ((run [(7,0),(7,0)] (new 2 : KeyedRateLimiter Nat)).2.overLimit 7 0 = true ↔
      ((run [(7,0),(7,0)] (new 2 : KeyedRateLimiter Nat)).2.allow 7 0).1 = false) := by
  have ⟨capped,allowances,ahead⟩ := limiterRuns (K := Nat) 2
  exact ⟨capped,allowances [(7,0),(8,0),(7,0),(7,0),(7,1)] (by decide) 7 0,
    (ahead (run [(7,0),(7,0)] (new 2)).2 7 0).2 (by decide +kernel)⟩

/- With a limit of nothing a new key is refused, but not said to be over its limit. -/
theorem nobodyAllowed : ¬ ∀ (limit : UInt32) (key : Nat) (window : UInt64),
    (new limit : KeyedRateLimiter Nat).overLimit key window = true ↔
      ((new limit : KeyedRateLimiter Nat).allow key window).1 = false := by
  intro ahead
  have refused : ((new 0 : KeyedRateLimiter Nat).allow 7 0).1 = false := by decide +kernel
  have silent : (new 0 : KeyedRateLimiter Nat).overLimit 7 0 = false := by decide +kernel
  exact Bool.noConfusion (silent.symm.trans ((ahead 0 7 0).mpr refused))

end KeyedRateLimiter
end CadsTunnel.RateLimit
