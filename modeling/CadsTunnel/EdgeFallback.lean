import CadsTunnel.EdgeRegistrations

/-! The parked slots of the TCP fallback: for each token a queue of one-shot senders,
oldest first, and the gauge of all of them. A delivery consumes dead slots until a live
one takes the stream; a sweep drops the dead ones. A teardown drops a whole queue and
leaves the gauge alone. -/
namespace CadsTunnel.Edge
open OrderedMap
open Std (ExtTreeMap)

/- A slot is named by its number. The receiving half belongs to the agent's task, which drops it when it likes. The gauge
counts slots in memory and so does not reach the end of its 64 bits. -/
structure Fallback where
  tcpAgents : HashMap RoutingToken (List Nat) := ∅
  nextSlot : Nat := 0
  dropped : HashSet Nat := ∅
  tcpParkedGauge : Nat := 0

namespace Fallback

def parked (f : Fallback) (token : RoutingToken) : List Nat := queueAt f.tcpAgents token

def hasTcpAgent (f : Fallback) (token : RoutingToken) : Bool := !(f.parked token).isEmpty

def parkTcpAgent (f : Fallback) (token : RoutingToken) : Nat × Fallback :=
  (f.nextSlot,{ f with
    tcpAgents := f.tcpAgents.insert token (f.parked token ++ [f.nextSlot])
    nextSlot := f.nextSlot + 1
    tcpParkedGauge := f.tcpParkedGauge + 1 })

/- `late` are the receivers that are dropped while the delivery is under way. The answer is the slot that took the stream. -/
def deliverToTcpAgent (f : Fallback) (token : RoutingToken) (late : Nat → Bool) : Option Nat × Fallback :=
  match f.parked token with
  | [] => (none,f)
  | slot :: rest =>
    (if f.dropped.contains slot || late slot then none else some slot,{ f with
      tcpAgents := putQueue f.tcpAgents token rest
      tcpParkedGauge := f.tcpParkedGauge - 1 })

def drain (token : RoutingToken) (late : Nat → Bool) : Nat → Fallback → Option Nat × Fallback
  | 0, f => (none,f)
  | fuel + 1, f =>
    if f.hasTcpAgent token then
      match f.deliverToTcpAgent token late with
      | (some slot,next) => (some slot,next)
      | (none,next) => drain token late fuel next
    else (none,f)

/- Each round consumes a slot, so the queue's length is rounds enough. -/
def deliverToTcpAgentDraining (f : Fallback) (token : RoutingToken) (late : Nat → Bool) : Option Nat × Fallback :=
  drain token late (f.parked token).length f

def dropReceiver (f : Fallback) (slot : Nat) : Fallback := { f with dropped := f.dropped.insert slot }

/- The live slots of a queue; a queue without any leaves the map. -/
def sweptQueue (f : Fallback) (queue : List Nat) : Option (List Nat) :=
  let left := queue.filter (fun slot => !f.dropped.contains slot)
  if left.isEmpty then none else some left

def reapDeadTcpParks (f : Fallback) : Nat × Fallback :=
  let reaped := ((contents f.tcpAgents).filter (fun slot => f.dropped.contains slot)).length
  (reaped,{ f with
    tcpAgents := f.tcpAgents.filterMap (fun _ queue => f.sweptQueue queue)
    tcpParkedGauge := f.tcpParkedGauge - reaped })

def removeTcpAgents (f : Fallback) (token : RoutingToken) : Fallback := { f with tcpAgents := f.tcpAgents.erase token }

@[simp] theorem parkedPark (f : Fallback) (token other : RoutingToken) :
    (f.parkTcpAgent token).2.parked other = if other = token then f.parked token ++ [f.nextSlot] else f.parked other := by
  simp only [parked, queueAt, parkTcpAgent, lookupInsert]
  split <;> rfl

@[simp] theorem parkedRemove (f : Fallback) (token other : RoutingToken) :
    (f.removeTcpAgents token).parked other = if other = token then [] else f.parked other := by
  simp only [parked, queueAt, removeTcpAgents, lookupErase]
  split <;> rfl

theorem parkedDeliver (f : Fallback) (token : RoutingToken) (late : Nat → Bool) (other : RoutingToken) :
    (f.deliverToTcpAgent token late).2.parked other = if other = token then (f.parked token).tail else f.parked other := by
  unfold deliverToTcpAgent
  split
  case h_1 empty =>
    split
    · simp_all
    · rfl
  case h_2 slot rest queue =>
    rw [queue]
    exact queueAtPut f.tcpAgents token rest other

theorem parkedDrain (f : Fallback) (token : RoutingToken) (late : Nat → Bool) (fuel : Nat) (other : RoutingToken) :
    ((drain token late fuel f).2.parked other).Sublist (f.parked other) := by
  induction fuel generalizing f with
  | zero => exact .refl _
  | succ fuel ih =>
    have first : ((f.deliverToTcpAgent token late).2.parked other).Sublist (f.parked other) := by
      rw [parkedDeliver]
      split
      case isTrue same => subst same; exact List.tail_sublist _
      case isFalse => exact .refl _
    rw [drain]
    split
    · split
      case h_1 slot next answer =>
        rw [answer] at first
        exact first
      case h_2 next answer =>
        rw [answer] at first
        exact (ih next).trans first
    · exact .refl _

/- A delivery that reports no slot has tried them all. -/
theorem drainedEmpty (f : Fallback) (token : RoutingToken) (late : Nat → Bool)
    (failed : (f.deliverToTcpAgentDraining token late).1 = none) :
    (f.deliverToTcpAgentDraining token late).2.parked token = [] := by
  have drained : ∀ fuel (f : Fallback), (f.parked token).length ≤ fuel → (drain token late fuel f).1 = none →
      (drain token late fuel f).2.parked token = [] := by
    intro fuel
    induction fuel with
    | zero =>
      intro f enough _
      exact List.length_eq_zero_iff.mp (Nat.le_zero.mp enough)
    | succ fuel ih =>
      intro f enough failed
      have first := parkedDeliver f token late token
      rw [if_pos rfl] at first
      rw [drain] at failed ⊢
      split at failed
      case isTrue waiting =>
        rw [if_pos waiting]
        split at failed <;> try contradiction
        case h_2 next answer =>
          simp only [answer] at first ⊢
          refine ih next ?_ failed
          rw [first, List.length_tail]
          omega
      case isFalse empty =>
        rw [if_neg empty]
        simpa [hasTcpAgent] using empty
  exact drained _ f (Nat.le_refl _) failed

@[simp] theorem parkedReap (f : Fallback) (token : RoutingToken) :
    f.reapDeadTcpParks.2.parked token = (f.parked token).filter (fun slot => !f.dropped.contains slot) := by
  simp only [parked, queueAt, reapDeadTcpParks, ExtTreeMap.getElem?_filterMap']
  cases f.tcpAgents[token]? with
  | none => rfl
  | some queue =>
    simp only [Option.bind_some, sweptQueue, Option.getD_some]
    split
    case isTrue empty => rw [List.isEmpty_iff.mp empty]; rfl
    case isFalse => rfl

/- The gauge is the number of slots in the map. -/
def Gauged (f : Fallback) : Prop := f.tcpParkedGauge = (contents f.tcpAgents).length

theorem gaugedNew : Gauged {} := by
  simp [Gauged, contentsEmpty]

theorem gaugedPark {f : Fallback} (gauged : f.Gauged) (token : RoutingToken) : (f.parkTcpAgent token).2.Gauged := by
  have before := (contentsSplit f.tcpAgents token).length_eq
  have after := (contentsInsert f.tcpAgents token (f.parked token ++ [f.nextSlot])).length_eq
  simp only [Gauged, parked, parkTcpAgent, List.length_append, List.length_singleton] at *
  omega

theorem gaugedDeliver {f : Fallback} (gauged : f.Gauged) (token : RoutingToken) (late : Nat → Bool) :
    (f.deliverToTcpAgent token late).2.Gauged := by
  unfold deliverToTcpAgent
  split
  case h_1 => exact gauged
  case h_2 slot rest queue =>
    have before := (contentsSplit f.tcpAgents token).length_eq
    have after := (contentsPut f.tcpAgents token rest).length_eq
    have size : (queueAt f.tcpAgents token).length = rest.length + 1 := by
      rw [← List.length_cons, ← queue, parked]
    simp only [Gauged, List.length_append] at *
    omega

theorem gaugedDrain {f : Fallback} (gauged : f.Gauged) (token : RoutingToken) (late : Nat → Bool) (fuel : Nat) :
    (drain token late fuel f).2.Gauged := by
  induction fuel generalizing f with
  | zero => exact gauged
  | succ fuel ih =>
    have first := gaugedDeliver gauged token late
    rw [drain]
    split
    · split
      case h_1 slot next answer => rwa [answer] at first
      case h_2 next answer =>
        rw [answer] at first
        exact ih first
    · exact gauged

theorem sweptContents (f : Fallback) :
    contents f.reapDeadTcpParks.2.tcpAgents = (contents f.tcpAgents).filter (fun slot => !f.dropped.contains slot) := by
  simp only [contents, reapDeadTcpParks, ExtTreeMap.toList_filterMap]
  generalize f.tcpAgents.toList = entries
  induction entries with
  | nil => rfl
  | cons entry rest ih =>
    rw [List.flatMap_cons, List.filter_append, ← ih, List.filterMap_cons]
    by_cases empty : (entry.2.filter (fun slot => !f.dropped.contains slot)).isEmpty
    · simp only [sweptQueue, empty, if_true, Option.map_none]
      rw [List.isEmpty_iff.mp empty, List.nil_append]
    · simp only [sweptQueue, empty, Bool.false_eq_true, if_false, Option.map_some, List.flatMap_cons]

theorem gaugedReap {f : Fallback} (gauged : f.Gauged) : f.reapDeadTcpParks.2.Gauged := by
  have halves := (contents f.tcpAgents).length_eq_length_filter_add (fun slot => f.dropped.contains slot)
  simp only [Gauged, sweptContents]
  simp only [Gauged] at gauged
  simp only [reapDeadTcpParks]
  omega

/- A teardown leaves the gauge alone, which is right only when nothing is parked. -/
theorem gaugedRemove {f : Fallback} (gauged : f.Gauged) {token : RoutingToken} (idle : f.parked token = []) :
    (f.removeTcpAgents token).Gauged := by
  have before := (contentsSplit f.tcpAgents token).length_eq
  rw [show queueAt f.tcpAgents token = [] from idle, List.nil_append] at before
  exact (show f.tcpParkedGauge = _ from gauged).trans before

end Fallback
end CadsTunnel.Edge
