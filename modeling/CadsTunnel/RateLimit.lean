import CadsTunnel.OrderedMap

/-! The fixed-window rate limiter over arbitrary keys. The window is supplied by the
caller. Entries of past windows go when a later one is first seen; with a cap on
the keys, a new key beyond it takes the place of the oldest. -/
namespace CadsTunnel.RateLimit
open OrderedMap

structure KeyedRateLimiter (K : Type) [Ord K] where
  maxPerWindow : UInt32
  counters : BTreeMap K (UInt64 × UInt32)
  lastSweptWindow : UInt64
  maxTrackedKeys : Option Nat
  insertionOrder : List K

namespace KeyedRateLimiter
variable {K : Type} [Ord K] [Std.TransOrd K]

def new (maxPerWindow : UInt32) : KeyedRateLimiter K := ⟨maxPerWindow,∅,0,none,[]⟩

def withMaxTrackedKeys (maxPerWindow : UInt32) (maxTrackedKeys : Nat) : KeyedRateLimiter K :=
  ⟨maxPerWindow,∅,0,some maxTrackedKeys,[]⟩

def sweep (l : KeyedRateLimiter K) (window : UInt64) : KeyedRateLimiter K :=
  if l.lastSweptWindow < window then
    let counters := l.counters.filter fun _ entry => window ≤ entry.1
    { l with
      counters := counters
      insertionOrder := if l.maxTrackedKeys.isSome then l.insertionOrder.filter (counters.contains ·) else l.insertionOrder
      lastSweptWindow := window }
  else l

/- Takes keys from the front until one of them was still counted. -/
def evict (counters : BTreeMap K (UInt64 × UInt32)) : List K → BTreeMap K (UInt64 × UInt32) × List K
  | [] => (counters,[])
  | oldest :: rest => if counters.contains oldest then (counters.erase oldest,rest) else evict counters rest

def makeRoom (l : KeyedRateLimiter K) (key : K) : KeyedRateLimiter K :=
  if l.counters.contains key then l
  else match l.maxTrackedKeys with
    | some cap =>
      let (counters,order) := if cap ≤ l.counters.size then evict l.counters l.insertionOrder else (l.counters,l.insertionOrder)
      { l with counters := counters, insertionOrder := order ++ [key] }
    | none => l

def allow (l : KeyedRateLimiter K) (key : K) (window : UInt64) : Bool × KeyedRateLimiter K :=
  let l := (l.sweep window).makeRoom key
  let entry := l.counters[key]?.getD (window,0)
  let entry := if entry.1 ≠ window then (window,0) else entry
  if l.maxPerWindow ≤ entry.2 then (false,{ l with counters := l.counters.insert key entry })
  else (true,{ l with counters := l.counters.insert key (entry.1,entry.2 + 1) })

def trackedKeys (l : KeyedRateLimiter K) : Nat := l.counters.size

def overLimit (l : KeyedRateLimiter K) (key : K) (window : UInt64) : Bool :=
  match l.counters[key]? with
  | some (w,count) => decide (w = window) && decide (l.maxPerWindow ≤ count)
  | none => false

section Answers
variable {l : KeyedRateLimiter K} {key : K} {window : UInt64}

theorem overLimitEntry : l.overLimit key window = true ↔ ∃ count, l.counters[key]? = some (window,count) ∧ l.maxPerWindow ≤ count := by
  unfold overLimit
  constructor
  · intro exhausted
    split at exhausted <;> try contradiction
    rename_i w count found
    rw [Bool.and_eq_true, decide_eq_true_iff, decide_eq_true_iff] at exhausted
    exact ⟨count,exhausted.1 ▸ found,exhausted.2⟩
  · rintro ⟨count,found,spent⟩
    simp [found, spent]

theorem makeRoomTracked (tracked : l.counters[key]?.isSome) : l.makeRoom key = l := by
  rw [makeRoom, Std.ExtTreeMap.contains_eq_isSome_getElem?, if_pos tracked]

variable [Std.LawfulEqOrd K]

theorem sweepCurrent {count : UInt32} (found : l.counters[key]? = some (window,count)) :
    (l.sweep window).counters[key]? = some (window,count) := by
  unfold sweep
  split
  · rw [Std.ExtTreeMap.getElem?_filter', found, Option.filter_some, if_pos (by simp)]
  · exact found

variable [DecidableEq K]

/- A key that is over its limit is refused, and is over it still. -/
theorem overLimitRefused (exhausted : l.overLimit key window = true) :
    (l.allow key window).1 = false ∧ (l.allow key window).2.overLimit key window = true := by
  obtain ⟨count,found,spent⟩ := overLimitEntry.mp exhausted
  have kept := sweepCurrent found
  have room : (l.sweep window).makeRoom key = l.sweep window := makeRoomTracked (by rw [kept]; rfl)
  have budget : (l.sweep window).maxPerWindow = l.maxPerWindow := by
    unfold sweep
    split <;> rfl
  have answer : l.allow key window =
      (false,{ l.sweep window with counters := (l.sweep window).counters.insert key (window,count) }) := by
    simp [allow, room, kept, budget, spent]
  rw [answer, overLimitEntry]
  refine ⟨rfl,count,?_,?_⟩
  · rw [lookupInsert, if_pos rfl]
  · rw [budget]
    exact spent

end Answers
end KeyedRateLimiter
end CadsTunnel.RateLimit
