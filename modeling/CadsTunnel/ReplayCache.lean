import CadsTunnel.OrderedMap
import CadsTunnel.Words

/-! The replay cache: an identifier is fresh once until its expiry. Expired entries are
swept only now and then, so what the cache holds depends on when it was swept last; what
it answers depends on the presentations alone. -/
namespace CadsTunnel.Replay
open OrderedMap Words

structure ReplayCache where
  seen : BTreeMap Bytes UInt64
  lastEvictAt : UInt64

structure Presentation where
  id : Bytes
  expiresAt : UInt64
  now : UInt64

def evictIntervalSecs : Nat := 5

namespace ReplayCache

def new : ReplayCache := ⟨∅,0⟩

def evictExpired (cache : ReplayCache) (now : UInt64) : ReplayCache :=
  { cache with seen := cache.seen.filter fun _ expiresAt => now < expiresAt }

/- The lookup and the entry, after the sweep if there is one. -/
def record (cache : ReplayCache) (p : Presentation) : Bool × ReplayCache :=
  if p.expiresAt ≤ p.now then (false,cache)
  else match cache.seen[p.id]? with
    | some existing =>
      if p.now < existing then (false,cache)
      else (true,{ cache with seen := cache.seen.insert p.id p.expiresAt })
    | none => (true,{ cache with seen := cache.seen.insert p.id p.expiresAt })

def checkAndRecord (cache : ReplayCache) (p : Presentation) : Bool × ReplayCache :=
  let cache := if evictIntervalSecs ≤ p.now.toNat - cache.lastEvictAt.toNat then
    { cache.evictExpired p.now with lastEvictAt := p.now } else cache
  cache.record p

/- The same check with any rule for when to sweep. -/
def checkSweeping (due : ReplayCache → UInt64 → Bool) (cache : ReplayCache) (p : Presentation) : Bool × ReplayCache :=
  let cache := if due cache p.now then { cache.evictExpired p.now with lastEvictAt := p.now } else cache
  cache.record p

def intervalPassed (cache : ReplayCache) (now : UInt64) : Bool := decide (evictIntervalSecs ≤ now.toNat - cache.lastEvictAt.toNat)

theorem checksByInterval : checkAndRecord = checkSweeping intervalPassed := by
  funext cache p
  rw [checkAndRecord, checkSweeping, intervalPassed]
  simp only [decide_eq_true_eq]

def answers (check : ReplayCache → Presentation → Bool × ReplayCache) : ReplayCache → List Presentation → List Bool
  | _, [] => []
  | cache, p :: calls => (check cache p).1 :: answers check (check cache p).2 calls

end ReplayCache

/- Which presentations are accepted: one that has not expired, if none accepted before it with
its identifier is still valid. -/
def Presents (calls : List Presentation) (accepted : List Bool) : Prop :=
  accepted.length = calls.length ∧ ∀ (t : Nat) p, calls[t]? = some p → (accepted[t]? = some true ↔ p.now < p.expiresAt ∧
    ∀ (s : Nat) q, s < t → calls[s]? = some q → accepted[s]? = some true → q.id = p.id → q.expiresAt ≤ p.now)

theorem presentsUnique {calls : List Presentation} {one other : List Bool} (left : Presents calls one)
    (right : Presents calls other) : one = other := by
  have same (t : Nat) : one[t]? = some true ↔ other[t]? = some true := by
    induction t using Nat.strong_induction_on with
    | h t ih =>
      cases call : calls[t]? with
      | none =>
        have outside := List.getElem?_eq_none_iff.mp call
        rw [List.getElem?_eq_none (left.1 ▸ outside), List.getElem?_eq_none (right.1 ▸ outside)]
      | some p =>
        rw [left.2 t p call, right.2 t p call]
        refine and_congr_right fun _ => forall₃_congr fun s q before => ?_
        rw [ih s before]
  refine List.ext_getElem (left.1.trans right.1.symm) fun t inside inside' => ?_
  have here := same t
  rw [List.getElem?_eq_getElem inside, List.getElem?_eq_getElem inside', Option.some_inj, Option.some_inj] at here
  exact Bool.eq_iff_iff.mpr here

namespace ReplayCache

/- From `now` on, the cache knows of a valid identifier exactly if it was accepted. -/
def Remembers (cache : ReplayCache) (accepted : List Presentation) (now : UInt64) : Prop :=
  ∀ id later, now ≤ later →
    ((∃ expiresAt, cache.seen[id]? = some expiresAt ∧ later < expiresAt) ↔ ∃ a ∈ accepted, a.id = id ∧ later < a.expiresAt)

theorem remembersNew (now : UInt64) : Remembers new [] now := fun id later _ => by simp [new]

theorem remembersLater {cache : ReplayCache} {accepted : List Presentation} {now later : UInt64} (remembers : Remembers cache accepted now)
    (passed : now ≤ later) : Remembers cache accepted later :=
  fun id after reached => remembers id after (UInt64.le_trans passed reached)

/- A sweep drops only what no later presentation could find valid. -/
theorem remembersSwept {cache : ReplayCache} {accepted : List Presentation} {now : UInt64} (remembers : Remembers cache accepted now)
    (sweptAt : UInt64) : Remembers { cache.evictExpired now with lastEvictAt := sweptAt } accepted now := by
  intro id later reached
  rw [← remembers id later reached]
  dsimp only [evictExpired]
  rw [Std.ExtTreeMap.getElem?_filter']
  constructor
  · rintro ⟨expiresAt,found,valid⟩
    obtain ⟨found,_⟩ := Option.filter_eq_some_iff.mp found
    exact ⟨expiresAt,found,valid⟩
  · rintro ⟨expiresAt,found,valid⟩
    refine ⟨expiresAt,Option.filter_eq_some_iff.mpr ⟨found,?_⟩,valid⟩
    exact decide_eq_true (UInt64.lt_of_le_of_lt reached valid)

/- An accepted presentation as a list of at most one. -/
def admitted (fresh : Bool) (p : Presentation) (accepted : List Presentation) : List Presentation :=
  if fresh then p :: accepted else accepted

theorem recordFresh {cache : ReplayCache} {accepted : List Presentation} {p : Presentation} (remembers : Remembers cache accepted p.now) :
    ((cache.record p).1 = true ↔ p.now < p.expiresAt ∧ ∀ a ∈ accepted, a.id = p.id → a.expiresAt ≤ p.now) ∧
      Remembers (cache.record p).2 (admitted (cache.record p).1 p accepted) p.now := by
  have known := remembers p.id p.now (UInt64.le_refl _)
  have stored (clear : ∀ a ∈ accepted, a.id = p.id → a.expiresAt ≤ p.now) :
      Remembers { cache with seen := cache.seen.insert p.id p.expiresAt } (p :: accepted) p.now := by
    intro id later reached
    dsimp only
    rw [lookupInsert]
    split
    case isTrue same =>
      subst same
      constructor
      · rintro ⟨expiresAt,found,valid⟩
        cases found
        exact ⟨p,List.mem_cons_self,rfl,valid⟩
      · rintro ⟨a,mem,named,valid⟩
        rcases List.mem_cons.mp mem with rfl | earlier
        · exact ⟨_,rfl,valid⟩
        · exact absurd (UInt64.lt_of_le_of_lt reached valid) (UInt64.not_lt.mpr (clear a earlier named))
    case isFalse other =>
      rw [remembers id later reached]
      simp [Ne.symm other]
  unfold record
  split
  · rename_i expired
    exact ⟨by simp [expired],remembers⟩
  · rename_i valid
    have valid := UInt64.not_le.mp valid
    split
    · rename_i existing found
      rw [found] at known
      split
      · rename_i live
        obtain ⟨a,mem,named,later⟩ := known.mp ⟨existing,rfl,live⟩
        refine ⟨⟨fun fresh => (nomatch fresh),fun clear => ?_⟩,remembers⟩
        exact absurd later (UInt64.not_lt.mpr (clear.2 a mem named))
      · rename_i stale
        have clear : ∀ a ∈ accepted, a.id = p.id → a.expiresAt ≤ p.now := fun a mem named => by
          by_contra later
          obtain ⟨_,same,live⟩ := known.mpr ⟨a,mem,named,UInt64.not_le.mp later⟩
          cases same
          exact stale live
        exact ⟨iff_of_true rfl ⟨valid,clear⟩,stored clear⟩
    · rename_i absent
      rw [absent] at known
      have clear : ∀ a ∈ accepted, a.id = p.id → a.expiresAt ≤ p.now := fun a mem named => by
        by_contra later
        obtain ⟨_,same,_⟩ := known.mpr ⟨a,mem,named,UInt64.not_le.mp later⟩
        cases same
      exact ⟨iff_of_true rfl ⟨valid,clear⟩,stored clear⟩

/- Whenever the cache is swept, it answers by the presentations it accepted. -/
theorem checkRemembers (due : ReplayCache → UInt64 → Bool) {cache : ReplayCache} {accepted : List Presentation} {p : Presentation}
    (remembers : Remembers cache accepted p.now) :
    ((cache.checkSweeping due p).1 = true ↔ p.now < p.expiresAt ∧ ∀ a ∈ accepted, a.id = p.id → a.expiresAt ≤ p.now) ∧
      Remembers (cache.checkSweeping due p).2 (admitted (cache.checkSweeping due p).1 p accepted) p.now := by
  unfold checkSweeping
  split
  · exact recordFresh (remembersSwept remembers p.now)
  · exact recordFresh remembers

theorem answersLength (check : ReplayCache → Presentation → Bool × ReplayCache) (cache : ReplayCache) (calls : List Presentation) :
    (answers check cache calls).length = calls.length := by
  induction calls generalizing cache with
  | nil => rfl
  | cons p calls ih => exact congrArg (· + 1) (ih _)

theorem answersPresent (due : ReplayCache → UInt64 → Bool) {calls : List Presentation} {cache : ReplayCache} {accepted : List Presentation}
    {now : UInt64} (remembers : Remembers cache accepted now) (reached : ∀ p ∈ calls, now ≤ p.now)
    (ordered : calls.Pairwise fun p q => p.now ≤ q.now) (t : Nat) {p : Presentation} (call : calls[t]? = some p) :
    (answers (checkSweeping due) cache calls)[t]? = some true ↔
      p.now < p.expiresAt ∧ (∀ a ∈ accepted, a.id = p.id → a.expiresAt ≤ p.now) ∧
        ∀ (s : Nat) q, s < t → calls[s]? = some q → (answers (checkSweeping due) cache calls)[s]? = some true →
          q.id = p.id → q.expiresAt ≤ p.now := by
  induction calls generalizing cache accepted now t with
  | nil => contradiction
  | cons first calls ih =>
    obtain ⟨here,later⟩ := checkRemembers due (remembersLater remembers (reached first List.mem_cons_self))
    obtain ⟨after,ordered⟩ := List.pairwise_cons.mp ordered
    cases t with
    | zero =>
      cases call
      rw [answers, List.getElem?_cons_zero, Option.some_inj, here]
      simp
    | succ t =>
      rw [answers, List.getElem?_cons_succ, ih later after ordered t call]
      refine and_congr_right fun _ => ?_
      constructor
      · rintro ⟨clear,before⟩
        refine ⟨fun a mem => clear a ?_,fun s q less at' fresh => ?_⟩
        · unfold admitted
          split
          · exact List.mem_cons_of_mem _ mem
          · exact mem
        · cases s with
          | zero =>
            cases at'
            rw [List.getElem?_cons_zero, Option.some_inj] at fresh
            exact clear first (by rw [admitted, if_pos fresh]; exact List.mem_cons_self)
          | succ s => exact before s q (Nat.lt_of_succ_lt_succ less) at' fresh
      · rintro ⟨clear,before⟩
        refine ⟨fun a mem => ?_,fun s q less at' fresh => before (s + 1) q (Nat.succ_lt_succ less) at' fresh⟩
        unfold admitted at mem
        split at mem
        · rename_i fresh
          rcases List.mem_cons.mp mem with rfl | earlier
          · exact before 0 a (Nat.succ_pos t) rfl (by rw [List.getElem?_cons_zero, fresh])
          · exact clear a earlier
        · exact clear a mem

theorem answersPresents (due : ReplayCache → UInt64 → Bool) {calls : List Presentation}
    (ordered : calls.Pairwise fun p q => p.now ≤ q.now) : Presents calls (answers (checkSweeping due) new calls) := by
  refine ⟨answersLength _ _ _,fun t p call => ?_⟩
  rw [answersPresent due (remembersNew 0) (fun p _ => UInt64.zero_le) ordered t call]
  simp

/- With a clock that does not run back, the cache accepts each identifier once until its expiry,
and any other rule for when to sweep gives the same answers. -/
theorem replaysRefused (calls : List Presentation) (ordered : calls.Pairwise fun p q => p.now ≤ q.now) :
    Presents calls (answers checkAndRecord new calls) ∧
      ∀ due, answers (checkSweeping due) new calls = answers checkAndRecord new calls := by
  rw [checksByInterval]
  exact ⟨answersPresents _ ordered,fun due => presentsUnique (answersPresents due ordered) (answersPresents _ ordered)⟩

/- The first identifier comes back after its expiry, before a sweep, and once more after that. -/
def comesBack : List Presentation := [⟨[1],3,1⟩,⟨[2],1000,4⟩,⟨[1],1000,4⟩,⟨[1],1000,6⟩]

theorem comesBackOnce : Presents comesBack (answers checkAndRecord new comesBack) ∧
    ∀ due, answers (checkSweeping due) new comesBack = answers checkAndRecord new comesBack :=
  replaysRefused comesBack (by decide)

end ReplayCache
end CadsTunnel.Replay
