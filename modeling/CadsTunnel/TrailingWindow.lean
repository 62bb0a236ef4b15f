import Mathlib

/-! Events on a clock, counted over the time that lies just behind it, and over any stretch. -/
namespace CadsTunnel.TrailingWindow

variable {Event : Type} {time : Event → Int} {events : List Event} {since later : Int}

/- How many events there are from a time on. -/
def countSince (time : Event → Int) (since : Int) (events : List Event) : Nat := events.countP (fun e => since ≤ time e)

theorem countLater (forward : since ≤ later) (events : List Event) : countSince time later events ≤ countSince time since events := by
  refine List.countP_mono_left ?_
  intro e _ within
  rw [decide_eq_true_eq] at within ⊢
  omega

theorem countAppend (first rest : List Event) :
    countSince time since (first ++ rest) = countSince time since first + countSince time since rest := List.countP_append

/- How many there are in a stretch, its ends included. -/
def countBetween (time : Event → Int) (start stop : Int) (events : List Event) : Nat := events.countP (fun e => start ≤ time e && time e ≤ stop)

/- An event that finds fewer than a bound behind it keeps every stretch of the length of the window within the bound. -/
theorem betweenAppend {window : Int} {bound : Nat} {e : Event} (bounded : ∀ start, countBetween time start (start + window) events ≤ bound)
    (room : countSince time (time e - window) events < bound) (start : Int) :
    countBetween time start (start + window) (events ++ [e]) ≤ bound := by
  rw [countBetween, List.countP_append, List.countP_singleton]
  split
  case isFalse => exact bounded start
  case isTrue inside =>
    rw [Bool.and_eq_true, decide_eq_true_eq, decide_eq_true_eq] at inside
    have fewer : events.countP (fun e => start ≤ time e && time e ≤ start + window) ≤ countSince time (time e - window) events := by
      refine List.countP_mono_left ?_
      intro earlier _ within
      rw [Bool.and_eq_true, decide_eq_true_eq, decide_eq_true_eq] at within
      rw [decide_eq_true_eq]
      omega
    omega

end CadsTunnel.TrailingWindow
