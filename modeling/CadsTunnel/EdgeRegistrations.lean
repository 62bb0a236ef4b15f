import CadsTunnel.ChannelObjects
import CadsTunnel.OrderedMap

/-! The live registrations of the edge: for each routing token the agents that serve it,
oldest first, and the two gauges that follow the map by increments. Every change of the
map goes through one of four functions, and each keeps the gauges at the counts. -/
namespace CadsTunnel.Edge
open OrderedMap
open Std (ExtTreeMap)

abbrev RoutingToken := Vector UInt8 32

/- A hash map is known by its lookups: no function below depends on its order. -/
abbrev HashMap (K V : Type) [Ord K] := BTreeMap K V
abbrev HashSet (K : Type) [Ord K] := BTreeSet K

/- The ids come from a 64-bit counter that no process lives to exhaust, the gauges may wrap. -/
structure Registrations (H : Type) where
  agents : HashMap RoutingToken (List (Nat × H)) := ∅
  nextReg : Nat := 1
  activeTunnelsGauge : UInt64 := 0
  totalRegistrationsGauge : UInt64 := 0

namespace Registrations
variable {H : Type}

def live (r : Registrations H) (token : RoutingToken) : List (Nat × H) := queueAt r.agents token

def registrationCount (r : Registrations H) (token : RoutingToken) : Nat := (r.live token).length

def isKnown (r : Registrations H) (token : RoutingToken) : Bool := !(r.live token).isEmpty

def registerLocked (r : Registrations H) (token : RoutingToken) (handle : H) : Nat × Registrations H :=
  let entry := r.live token
  (r.nextReg,{
    agents := r.agents.insert token (entry ++ [(r.nextReg,handle)])
    nextReg := r.nextReg + 1
    activeTunnelsGauge := if entry.isEmpty then r.activeTunnelsGauge + 1 else r.activeTunnelsGauge
    totalRegistrationsGauge := r.totalRegistrationsGauge + 1 })

/- The entry of a token after some of its registrations are gone: an empty entry leaves the map. -/
def keep (r : Registrations H) (token : RoutingToken) (entry kept : List (Nat × H)) : Registrations H :=
  let removed := entry.length - kept.length
  { r with
    agents := putQueue r.agents token kept
    activeTunnelsGauge := if kept.isEmpty ∧ 0 < removed then r.activeTunnelsGauge - 1 else r.activeTunnelsGauge
    totalRegistrationsGauge := r.totalRegistrationsGauge - .ofNat removed }

/- Whether the token has an entry that is empty after the removal: only then does the caller tear down the rest. -/
def removeId (r : Registrations H) (token : RoutingToken) (id : Nat) : Bool × Registrations H :=
  match r.agents[token]? with
  | none => (false,r)
  | some entry =>
    let kept := entry.filter (fun e => e.1 ≠ id)
    (kept.isEmpty,r.keep token entry kept)

/- The whole entry at once, as a teardown and a repin drop it. -/
def removeAll (r : Registrations H) (token : RoutingToken) : List H × Registrations H :=
  match r.agents[token]? with
  | none => ([],r)
  | some entry =>
    if entry.isEmpty then ([],{ r with agents := r.agents.erase token })
    else
      (entry.map Prod.snd,{ r with
        agents := r.agents.erase token
        activeTunnelsGauge := r.activeTunnelsGauge - 1
        totalRegistrationsGauge := r.totalRegistrationsGauge - .ofNat entry.length })

def evictUnproven (r : Registrations H) (token : RoutingToken) (proven : HashSet Nat) : List H × Registrations H :=
  match r.agents[token]? with
  | none => ([],r)
  | some entry =>
    ((entry.filter (fun e => !proven.contains e.1)).map Prod.snd,
      r.keep token entry (entry.filter (fun e => proven.contains e.1)))

/- What each function leaves of the registrations of a token. -/
@[simp] theorem liveRegister (r : Registrations H) (token : RoutingToken) (handle : H) (other : RoutingToken) :
    (r.registerLocked token handle).2.live other =
      if other = token then r.live token ++ [(r.nextReg,handle)] else r.live other := by
  simp only [live, queueAt, registerLocked, lookupInsert]
  split <;> rfl

theorem liveKeep (r : Registrations H) (token : RoutingToken) (entry kept : List (Nat × H)) (other : RoutingToken) :
    (r.keep token entry kept).live other = if other = token then kept else r.live other :=
  queueAtPut r.agents token kept other

@[simp] theorem liveRemoveId (r : Registrations H) (token : RoutingToken) (id : Nat) (other : RoutingToken) :
    (r.removeId token id).2.live other =
      if other = token then (r.live token).filter (fun e => e.1 ≠ id) else r.live other := by
  unfold removeId
  split
  case h_1 absent =>
    split
    · simp_all [live, queueAt]
    · rfl
  case h_2 entry found =>
    rw [liveKeep]
    simp [live, queueAt, found]

@[simp] theorem liveRemoveAll (r : Registrations H) (token other : RoutingToken) :
    (r.removeAll token).2.live other = if other = token then [] else r.live other := by
  have erased : queueAt (r.agents.erase token) other = if other = token then [] else queueAt r.agents other := by
    rw [queueAt, lookupErase]
    split <;> rfl
  unfold removeAll
  split
  case h_1 absent =>
    rw [← eraseAbsent absent] at erased
    simpa only [live, eraseAbsent absent] using erased
  case h_2 entry found => split <;> exact erased

@[simp] theorem liveEvict (r : Registrations H) (token : RoutingToken) (proven : HashSet Nat) (other : RoutingToken) :
    (r.evictUnproven token proven).2.live other =
      if other = token then (r.live token).filter (fun e => proven.contains e.1) else r.live other := by
  unfold evictUnproven
  split
  case h_1 absent =>
    split
    · simp_all [live, queueAt]
    · rfl
  case h_2 entry found =>
    rw [liveKeep]
    simp [live, queueAt, found]

/- The gauges are the counts, no entry is empty, and the ids are those handed out so far, each once. -/
structure Counted (r : Registrations H) : Prop where
  nonempty : ∀ (token : RoutingToken) (entry : List (Nat × H)), r.agents[token]? = some entry → entry ≠ []
  tunnels : r.activeTunnelsGauge = .ofNat r.agents.size
  registrations : r.totalRegistrationsGauge = .ofNat (contents r.agents).length
  distinct : ((contents r.agents).map Prod.fst).Nodup
  issued : ∀ e ∈ contents r.agents, e.1 < r.nextReg

theorem countedNew : Counted ({} : Registrations H) where
  nonempty := by simp
  tunnels := by simp
  registrations := by simp [contentsEmpty]
  distinct := by simp [contentsEmpty]
  issued := by simp [contentsEmpty]

theorem Counted.absent {r : Registrations H} (counted : r.Counted) (token : RoutingToken) :
    (r.live token).isEmpty ↔ r.agents[token]? = none := by
  cases found : r.agents[token]? with
  | none => simp [live, queueAt, found]
  | some entry => simpa [live, queueAt, found] using counted.nonempty token entry found

theorem liveIssued {r : Registrations H} (counted : r.Counted) {token : RoutingToken} {e : Nat × H} (mem : e ∈ r.live token) :
    e.1 < r.nextReg :=
  counted.issued e ((contentsSplit r.agents token).mem_iff.mpr (List.mem_append_left _ mem))

theorem countedRegister {r : Registrations H} (counted : r.Counted) (token : RoutingToken) (handle : H) :
    (r.registerLocked token handle).2.Counted := by
  have split := contentsSplit r.agents token
  have grown : (contents (r.registerLocked token handle).2.agents).Perm ((r.nextReg,handle) :: contents r.agents) := by
    refine (contentsInsert r.agents token _).trans ?_
    rw [List.append_assoc]
    refine List.perm_middle.trans (.cons _ ?_)
    exact split.symm
  refine ⟨?_,?_,?_,?_,?_⟩
  · intro other entry found
    simp only [registerLocked, lookupInsert] at found
    split at found
    · cases Option.some.inj found
      simp
    · exact counted.nonempty other entry found
  · have absent := counted.absent token
    simp only [registerLocked, sizeInsert, counted.tunnels]
    cases found : r.agents[token]? with
    | none =>
      rw [if_pos (absent.mpr found), Words.ofNatSucc]
      rfl
    | some entry =>
      have occupied : (r.live token).isEmpty = false := by simpa [found] using absent
      simp [occupied]
  · rw [grown.length_eq, List.length_cons, ← Words.ofNatSucc, ← counted.registrations]
    rfl
  · refine ((grown.map Prod.fst).nodup_iff).mpr ?_
    rw [List.map_cons, List.nodup_cons]
    refine ⟨?_,counted.distinct⟩
    intro again
    obtain ⟨e,mem,same⟩ := List.mem_map.mp again
    exact absurd (counted.issued e mem) (by simp [same])
  · intro e mem
    obtain rfl | old := List.mem_cons.mp (grown.mem_iff.mp mem)
    · exact Nat.lt_succ_self _
    · exact Nat.lt_succ_of_lt (counted.issued e old)

/- The entry of one token shrinks from `entry` to `kept`. -/
theorem countedKeep {r : Registrations H} (counted : r.Counted) {token : RoutingToken} {entry kept : List (Nat × H)}
    (found : r.agents[token]? = some entry) (fewer : kept.Sublist entry) : (r.keep token entry kept).Counted := by
  have before : (contents r.agents).Perm (entry ++ contents (r.agents.erase token)) := by
    simpa only [queueAt, found, Option.getD_some] using contentsSplit r.agents token
  have after := contentsPut r.agents token kept
  have shorter := fewer.length_le
  have inside := fewer.append_right (contents (r.agents.erase token))
  refine ⟨?_,?_,?_,?_,?_⟩
  · intro other left lookup
    simp only [keep, putQueue] at lookup
    split at lookup
    case isTrue =>
      rw [lookupErase] at lookup
      split at lookup <;> try contradiction
      exact counted.nonempty other left lookup
    case isFalse occupied =>
      rw [lookupInsert] at lookup
      split at lookup
      · cases Option.some.inj lookup
        simpa using occupied
      · exact counted.nonempty other left lookup
  · have present := counted.nonempty token entry found
    simp only [keep, putQueue, counted.tunnels]
    cases kept with
    | nil =>
      have some : 0 < entry.length := List.length_pos_iff.mpr present
      simp only [List.isEmpty_nil, List.length_nil, Nat.sub_zero, some, and_self, if_true]
      rw [sizeErase found, ← Words.ofNatSucc]
      exact UInt64.add_sub_cancel _ _
    | cons first rest => simp [sizeInsert, found]
  · have total : (contents r.agents).length = (entry.length - kept.length) +
        (contents (putQueue r.agents token kept)).length := by
      rw [before.length_eq, after.length_eq, List.length_append, List.length_append]
      omega
    rw [keep, counted.registrations, total, Nat.add_comm, UInt64.ofNat_add]
    exact UInt64.add_sub_cancel _ _
  · have distinct := ((before.map Prod.fst).nodup_iff).mp counted.distinct
    exact ((after.map Prod.fst).nodup_iff).mpr (distinct.sublist (inside.map Prod.fst))
  · intro e mem
    exact counted.issued e (before.mem_iff.mpr (inside.subset (after.mem_iff.mp mem)))

theorem countedRemoveId {r : Registrations H} (counted : r.Counted) (token : RoutingToken) (id : Nat) :
    (r.removeId token id).2.Counted := by
  unfold removeId
  split
  case h_1 => exact counted
  case h_2 entry found => exact countedKeep counted found List.filter_sublist

theorem countedEvict {r : Registrations H} (counted : r.Counted) (token : RoutingToken) (proven : HashSet Nat) :
    (r.evictUnproven token proven).2.Counted := by
  unfold evictUnproven
  split
  case h_1 => exact counted
  case h_2 entry found => exact countedKeep counted found List.filter_sublist

theorem countedRemoveAll {r : Registrations H} (counted : r.Counted) (token : RoutingToken) : (r.removeAll token).2.Counted := by
  unfold removeAll
  split
  case h_1 => exact counted
  case h_2 entry found =>
    have present := counted.nonempty token entry found
    have some : 0 < entry.length := List.length_pos_iff.mpr present
    have occupied : ¬entry.isEmpty := by simpa using present
    have dropped := countedKeep counted found (List.nil_sublist entry)
    simpa only [keep, putQueue, List.isEmpty_nil, List.length_nil, Nat.sub_zero, some, and_self, if_true, if_neg occupied] using dropped

end Registrations
end CadsTunnel.Edge
