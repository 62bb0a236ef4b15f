import CadsTunnel.Machine
import CadsTunnel.Sql

/-! One poll of the name servers for all who wait for the same record. The first caller of a
key claims it and polls, the others listen to the claimant's channel; a call may be dropped
wherever it waits, and what it leaves behind is cleared in the order in which it is dropped. -/
namespace CadsTunnel.ConvergenceCoalescer
open OrderedMap
open Sql (hasRow hasRowIff)
open Std (ExtTreeMap)

inductive Convergence where
  | converged (nodes : Nat) (took : Nat)
  | timedOut (lagging unreachable : List String)
  | noNodesReachable
  | saturated
  deriving DecidableEq

/- A channel that keeps its last value. A receiver remembers the version it has seen. -/
structure Watch (α : Type) where
  value : α
  version : Nat := 0
  closed : Bool := false

/- A value sent to nobody is not kept. -/
def Watch.send {α : Type} (received : Bool) (value : α) (w : Watch α) : Watch α :=
  if received then { w with value := value, version := w.version + 1 } else w

def Watch.close {α : Type} (w : Watch α) : Watch α := { w with closed := true }

def Watch.changed {α : Type} (seen : Nat) (w : Watch α) : Option (Except Unit Nat) :=
  if w.version ≠ seen then some (.ok w.version) else if w.closed then some (.error ()) else none

abbrev Channel := Watch (Option Convergence)

def fresh : Channel := { value := none }

/- Where a call of `coalesce` stands. A claimant waits for its slot and then for its poll; from there on, also when
it is dropped, it gives back the slot, publishes a result, removes its entry and drops the sender. -/
inductive Phase where
  | calling
  | acquiring
  | polling
  | releasing (outcome : Option Convergence)
  | publishing (result : Convergence)
  | leaving (outcome : Option Convergence)
  | closing (outcome : Option Convergence)
  | subscribed (claimant seen : Nat)
  | awaiting (claimant seen : Nat)
  | returned (result : Convergence)
  | cancelled
  deriving DecidableEq

structure Caller where
  key : String
  phase : Phase

def maxConcurrentPollers : Nat := 4

/- The entry of a key holds a receiver of the channel of the caller that claimed it. -/
structure State where
  inflight : BTreeMap String Nat := ∅
  pollSlots : Nat := maxConcurrentPollers
  channels : BTreeMap Nat Channel := ∅
  callers : BTreeMap Nat Caller := ∅

def State.channel (s : State) (claimant : Nat) : Channel := s.channels[claimant]?.getD fresh

def Phase.listensTo (claimant : Nat) : Phase → Bool
  | .subscribed c _ => c = claimant
  | .awaiting c _ => c = claimant
  | _ => false

/- Someone holds a receiver of the claimant's channel. -/
def State.received (s : State) (claimant : Nat) : Bool :=
  hasRow (fun _ c => c = claimant) s.inflight || hasRow (fun _ caller => caller.phase.listensTo claimant) s.callers

def State.put (id : Nat) (key : String) (phase : Phase) (s : State) : State := { s with callers := s.callers.insert id ⟨key,phase⟩ }

/- A call that is dropped: only before it runs or where it waits. -/
def Phase.dropped : Phase → Option Phase
  | .calling => some .cancelled
  | .acquiring => some (.leaving none)
  | .polling => some (.releasing none)
  | .awaiting _ _ => some .cancelled
  | _ => none

def Phase.released : Option Convergence → Phase
  | some result => .publishing result
  | none => .leaving none

def Phase.ended : Option Convergence → Phase
  | some result => .returned result
  | none => .cancelled

def enter (id : Nat) (key : String) (s : State) : State :=
  match s.inflight[key]? with
  | some claimant => s.put id key (.subscribed claimant 0)
  | none => { s with inflight := s.inflight.insert key id, channels := s.channels.insert id fresh }.put id key .acquiring

def listen (id : Nat) (key : String) (claimant : Nat) (s : State) : State :=
  match (s.channel claimant).value with
  | some result => s.put id key (.returned result)
  | none => s.put id key (.awaiting claimant (s.channel claimant).version)

def wake (id : Nat) (key : String) (claimant seen : Nat) (s : State) : Option State :=
  match (s.channel claimant).changed seen with
  | some (.ok version) => some (s.put id key (.subscribed claimant version))
  | some (.error _) => some (s.put id key (.returned .noNodesReachable))
  | none => none

def resume (id : Nat) (key : String) (s : State) : Phase → Option State
  | .calling => some (enter id key s)
  | .releasing outcome => some ({ s with pollSlots := s.pollSlots + 1 }.put id key (.released outcome))
  | .publishing result =>
    some ({ s with channels := s.channels.insert id ((s.channel id).send (s.received id) (some result)) }.put id key (.leaving (some result)))
  | .leaving outcome => some ({ s with inflight := s.inflight.erase key }.put id key (.closing outcome))
  | .closing outcome => some ({ s with channels := s.channels.insert id (s.channel id).close }.put id key (.ended outcome))
  | .subscribed claimant _ => some (listen id key claimant s)
  | .awaiting claimant seen => wake id key claimant seen s
  | _ => none

/- A call, a step of a caller, what a caller waits for, and the drop of a call. -/
inductive Event where
  | call (id : Nat) (key : String)
  | resume (id : Nat)
  | slot (id : Nat)
  | timeOut (id : Nat)
  | polled (id : Nat) (result : Convergence)
  | cancel (id : Nat)
  deriving DecidableEq

def next (s : State) : Event → Option State
  | .call id key => if s.callers[id]?.isNone then some (s.put id key .calling) else none
  | .resume id => s.callers[id]?.bind (fun c => ConvergenceCoalescer.resume id c.key s c.phase)
  | .slot id => s.callers[id]?.bind (fun c =>
      if c.phase = .acquiring ∧ 0 < s.pollSlots then some ({ s with pollSlots := s.pollSlots - 1 }.put id c.key .polling) else none)
  | .timeOut id => s.callers[id]?.bind (fun c => if c.phase = .acquiring then some (s.put id c.key (.publishing .saturated)) else none)
  | .polled id result => s.callers[id]?.bind (fun c => if c.phase = .polling then some (s.put id c.key (.releasing (some result))) else none)
  | .cancel id => s.callers[id]?.bind (fun c => c.phase.dropped.map (fun phase => s.put id c.key phase))

/- An event that cannot happen leaves the state as it is. -/
def step (s : State) (event : Event) : Bool × State := ((next s event).isSome,(next s event).getD s)

def run (events : List Event) : State := Machine.run step {} events

/- From the claim to the removal of the entry. -/
def Phase.active : Phase → Bool
  | .acquiring | .polling | .releasing _ | .publishing _ | .leaving _ => true
  | _ => false

/- The steps a caller has left, at most. -/
def Phase.remaining : Phase → Nat
  | .calling => 7
  | .acquiring => 6
  | .polling => 5
  | .releasing _ => 4
  | .publishing _ => 3
  | .leaving _ => 2
  | .closing _ => 1
  | .subscribed _ seen => if seen = 0 then 3 else 1
  | .awaiting _ _ => 2
  | .returned _ | .cancelled => 0

def State.remaining (s : State) : Nat := total (fun caller => caller.phase.remaining) s.callers

def Event.calls : Event → Bool
  | .call _ _ => true
  | _ => false

def Event.cancels : Event → Bool
  | .cancel _ => true
  | _ => false

/- The event came about in the run. -/
def Happened (events : List Event) (event : Event) : Prop := ∃ k : Nat, events[k]? = some event ∧ (next (run (events.take k)) event).isSome

/- The result of the claimant's poll, or that it got no slot. -/
def Verdict (events : List Event) (claimant : Nat) (result : Convergence) : Prop :=
  Happened events (.polled claimant result) ∨ result = .saturated ∧ Happened events (.timeOut claimant)

/- The claimant was registered at some moment of the caller's call. -/
def Met (events : List Event) (id claimant : Nat) : Prop :=
  ∃ (k : Nat) (caller : Caller), k ≤ events.length ∧ (run (events.take k)).callers[id]? = some caller ∧ 0 < caller.phase.remaining ∧
    (run (events.take k)).inflight[caller.key]? = some claimant

def Answer (events : List Event) (id : Nat) (result : Convergence) : Prop :=
  ∃ claimant, Met events id claimant ∧ (Verdict events claimant result ∨ result = .noNodesReachable ∧ Happened events (.cancel claimant))

structure Coalesced (events : List Event) : Prop where
  perKey : ∀ (a b : Nat) (key : String), (run events).callers[a]? = some ⟨key,.polling⟩ → (run events).callers[b]? = some ⟨key,.polling⟩ → a = b
  atMost : ((run events).callers.filter (fun _ caller => caller.phase = .polling)).size ≤ maxConcurrentPollers
  registered : ∀ (key : String) (id : Nat), (run events).inflight[key]? = some id ↔ ∃ phase : Phase, (run events).callers[id]? = some ⟨key,phase⟩ ∧ phase.active
  answered : ∀ (id : Nat) (key : String) (result : Convergence), (run events).callers[id]? = some ⟨key,.returned result⟩ → Answer events id result
  cancelled : ∀ (id : Nat) (key : String), (run events).callers[id]? = some ⟨key,.cancelled⟩ → Happened events (.cancel id)
  returns : (∀ event : Event, !event.calls → !event.cancels → next (run events) event = none) →
    ∀ (id : Nat) (caller : Caller), (run events).callers[id]? = some caller → (∃ result, caller.phase = .returned result) ∨ caller.phase = .cancelled
  ends : ∀ more : List Event, Machine.along step (fun s event => !event.calls ∧ (next s event).isSome) (run events) more → more.length ≤ (run events).remaining

section Moves
variable {s m : State} {id claimant seen : Nat} {key : String}

inductive Moved (s : State) : Event → State → Prop where
  | called {id : Nat} {key : String} (absent : s.callers[id]? = none) : Moved s (.call id key) (s.put id key .calling)
  | claimed {id : Nat} {key : String} (found : s.callers[id]? = some ⟨key,.calling⟩) (free : s.inflight[key]? = none) :
      Moved s (.resume id) ({ s with inflight := s.inflight.insert key id, channels := s.channels.insert id fresh }.put id key .acquiring)
  | joined {id claimant : Nat} {key : String} (found : s.callers[id]? = some ⟨key,.calling⟩) (taken : s.inflight[key]? = some claimant) :
      Moved s (.resume id) (s.put id key (.subscribed claimant 0))
  | slotted {id : Nat} {key : String} (found : s.callers[id]? = some ⟨key,.acquiring⟩) (free : 0 < s.pollSlots) :
      Moved s (.slot id) ({ s with pollSlots := s.pollSlots - 1 }.put id key .polling)
  | timedOut {id : Nat} {key : String} (found : s.callers[id]? = some ⟨key,.acquiring⟩) : Moved s (.timeOut id) (s.put id key (.publishing .saturated))
  | polled {id : Nat} {key : String} (result : Convergence) (found : s.callers[id]? = some ⟨key,.polling⟩) :
      Moved s (.polled id result) (s.put id key (.releasing (some result)))
  | released {id : Nat} {key : String} {outcome : Option Convergence} (found : s.callers[id]? = some ⟨key,.releasing outcome⟩) :
      Moved s (.resume id) ({ s with pollSlots := s.pollSlots + 1 }.put id key (.released outcome))
  | published {id : Nat} {key : String} {result : Convergence} (found : s.callers[id]? = some ⟨key,.publishing result⟩) :
      Moved s (.resume id)
        ({ s with channels := s.channels.insert id ((s.channel id).send (s.received id) (some result)) }.put id key (.leaving (some result)))
  | left {id : Nat} {key : String} {outcome : Option Convergence} (found : s.callers[id]? = some ⟨key,.leaving outcome⟩) :
      Moved s (.resume id) ({ s with inflight := s.inflight.erase key }.put id key (.closing outcome))
  | closed {id : Nat} {key : String} {outcome : Option Convergence} (found : s.callers[id]? = some ⟨key,.closing outcome⟩) :
      Moved s (.resume id) ({ s with channels := s.channels.insert id (s.channel id).close }.put id key (.ended outcome))
  | heard {id claimant seen : Nat} {key : String} {result : Convergence} (found : s.callers[id]? = some ⟨key,.subscribed claimant seen⟩)
      (value : (s.channel claimant).value = some result) : Moved s (.resume id) (s.put id key (.returned result))
  | slept {id claimant seen : Nat} {key : String} (found : s.callers[id]? = some ⟨key,.subscribed claimant seen⟩)
      (value : (s.channel claimant).value = none) : Moved s (.resume id) (s.put id key (.awaiting claimant (s.channel claimant).version))
  | woken {id claimant seen : Nat} {key : String} (found : s.callers[id]? = some ⟨key,.awaiting claimant seen⟩)
      (changed : (s.channel claimant).version ≠ seen) : Moved s (.resume id) (s.put id key (.subscribed claimant (s.channel claimant).version))
  | orphaned {id claimant seen : Nat} {key : String} (found : s.callers[id]? = some ⟨key,.awaiting claimant seen⟩)
      (same : (s.channel claimant).version = seen) (closed : (s.channel claimant).closed) :
      Moved s (.resume id) (s.put id key (.returned .noNodesReachable))
  | dropped {id : Nat} {key : String} {old new : Phase} (found : s.callers[id]? = some ⟨key,old⟩) (dropped : old.dropped = some new) :
      Moved s (.cancel id) (s.put id key new)

theorem nextMoved {event : Event} (ok : next s event = some m) : Moved s event m := by
  cases event with
  | call id key =>
    rw [next] at ok
    split at ok <;> try contradiction
    rename_i absent
    cases ok
    exact .called (Option.isNone_iff_eq_none.mp absent)
  | slot id =>
    obtain ⟨⟨key,phase⟩,found,ok⟩ := Option.bind_eq_some_iff.mp ok
    split at ok <;> try contradiction
    rename_i both
    obtain ⟨rfl,free⟩ := both
    cases ok
    exact .slotted found free
  | timeOut id =>
    obtain ⟨⟨key,phase⟩,found,ok⟩ := Option.bind_eq_some_iff.mp ok
    split at ok <;> try contradiction
    rename_i waits
    cases waits
    cases ok
    exact .timedOut found
  | polled id result =>
    obtain ⟨⟨key,phase⟩,found,ok⟩ := Option.bind_eq_some_iff.mp ok
    split at ok <;> try contradiction
    rename_i polls
    cases polls
    cases ok
    exact .polled result found
  | cancel id =>
    obtain ⟨⟨key,phase⟩,found,ok⟩ := Option.bind_eq_some_iff.mp ok
    obtain ⟨new,dropped,rfl⟩ := Option.map_eq_some_iff.mp ok
    exact .dropped found dropped
  | resume id =>
    obtain ⟨⟨key,phase⟩,found,ok⟩ := Option.bind_eq_some_iff.mp ok
    cases phase with
    | calling =>
      cases taken : s.inflight[key]? with
      | none =>
        simp only [ConvergenceCoalescer.resume, enter, taken] at ok
        cases ok
        exact .claimed found taken
      | some claimant =>
        simp only [ConvergenceCoalescer.resume, enter, taken] at ok
        cases ok
        exact .joined found taken
    | releasing outcome =>
      cases ok
      exact .released found
    | publishing result =>
      cases ok
      exact .published found
    | leaving outcome =>
      cases ok
      exact .left found
    | closing outcome =>
      cases ok
      exact .closed found
    | subscribed claimant seen =>
      cases value : (s.channel claimant).value with
      | none =>
        simp only [ConvergenceCoalescer.resume, listen, value] at ok
        cases ok
        exact .slept found value
      | some result =>
        simp only [ConvergenceCoalescer.resume, listen, value] at ok
        cases ok
        exact .heard found value
    | awaiting claimant seen =>
      by_cases same : (s.channel claimant).version = seen
      · cases closed : (s.channel claimant).closed with
        | true =>
          have changed : (s.channel claimant).changed seen = some (.error ()) := by
            rw [Watch.changed, if_neg (not_not.mpr same), closed]
            rfl
          simp only [ConvergenceCoalescer.resume, wake, changed] at ok
          cases ok
          exact .orphaned found same closed
        | false => simp [ConvergenceCoalescer.resume, wake, Watch.changed, same, closed] at ok
      · simp only [ConvergenceCoalescer.resume, wake, Watch.changed, ne_eq, same, not_false_eq_true, if_true] at ok
        cases ok
        exact .woken found same
    | acquiring | polling | returned | cancelled => contradiction

/- A caller whose channel others listen to. -/
def Phase.serves : Phase → Bool
  | .acquiring | .polling | .releasing _ | .publishing _ | .leaving _ | .closing _ => true
  | _ => false

def Phase.holds : Phase → Bool
  | .polling | .releasing _ => true
  | _ => false

/- The channel of a caller as its phase has it. -/
def Own (w : Channel) : Phase → Prop
  | .calling | .acquiring | .polling | .releasing _ | .publishing _ => w = fresh
  | .leaving outcome | .closing outcome => w = ⟨outcome,if outcome.isSome then 1 else 0,false⟩
  | _ => True

/- What a listener has seen of the channel. -/
def Seen (w : Channel) : Phase → Prop
  | .subscribed _ seen => seen ≤ w.version
  | .awaiting _ seen => seen = 0
  | _ => True

structure Sound (s : State) : Prop where
  registered : ∀ (key : String) (id : Nat), s.inflight[key]? = some id ↔ ∃ phase : Phase, s.callers[id]? = some ⟨key,phase⟩ ∧ phase.active
  slots : s.pollSlots + (s.callers.filter (fun _ caller => caller.phase.holds)).size = maxConcurrentPollers
  own : ∀ (id : Nat) (caller : Caller), s.callers[id]? = some caller → Own (s.channel id) caller.phase
  unused : ∀ id : Nat, s.callers[id]? = none → s.channel id = fresh
  versions : ∀ id : Nat, (s.channel id).version = if (s.channel id).value.isSome then 1 else 0
  served : ∀ (id claimant : Nat) (caller : Caller), s.callers[id]? = some caller → caller.phase.listensTo claimant →
    (∃ other : Caller, s.callers[claimant]? = some other ∧ other.phase.serves) ∨ (s.channel claimant).closed
  seen : ∀ (id claimant : Nat) (caller : Caller), s.callers[id]? = some caller → caller.phase.listensTo claimant → Seen (s.channel claimant) caller.phase

/- A caller that is as good as none, or one of the callers. -/
def Was (s : State) (id : Nat) (key : String) (old : Phase) : Prop := s.callers[id]? = some ⟨key,old⟩ ∨ s.callers[id]? = none ∧ old = .cancelled

theorem filterPut (p : Phase → Bool) (quiet : p .cancelled = false) {old : Phase} (was : Was s id key old) (key' : String) (new : Phase) :
    ((s.callers.insert id ⟨key',new⟩).filter (fun _ caller => p caller.phase)).size + (if p old then 1 else 0) =
      (s.callers.filter (fun _ caller => p caller.phase)).size + if p new then 1 else 0 := by
  rw [sizeFilterInsert]
  obtain found | ⟨absent,rfl⟩ := was
  · have before := sizeFilterInsert (fun _ caller => p caller.phase) s.callers id ⟨key,old⟩
    rw [insertSame found] at before
    dsimp only at before ⊢
    omega
  · rw [eraseAbsent absent, quiet]
    rfl

/- One caller goes on to another phase, and at most its own channel and its own entry change. -/
structure Change (s m : State) (id : Nat) (key : String) (old new : Phase) : Prop where
  was : Was s id key old
  callers : m.callers = s.callers.insert id ⟨key,new⟩
  others : ∀ c : Nat, c ≠ id → m.channel c = s.channel c
  inflight : ∀ (k : String) (c : Nat), m.inflight[k]? = some c ↔ if c = id then k = key ∧ new.active else s.inflight[k]? = some c
  slots : m.pollSlots + (if new.holds then 1 else 0) = s.pollSlots + if old.holds then 1 else 0
  own : Own (m.channel id) new
  versions : (m.channel id).version = if (m.channel id).value.isSome then 1 else 0
  grows : old.serves ∨ (s.channel id).closed → (s.channel id).version ≤ (m.channel id).version ∧ (new.serves ∨ (m.channel id).closed)
  served : ∀ claimant : Nat, new.listensTo claimant → (∃ other : Caller, s.callers[claimant]? = some other ∧ other.phase.serves) ∨ (s.channel claimant).closed
  seen : ∀ claimant : Nat, new.listensTo claimant → Seen (m.channel claimant) new

theorem changeLookup {old new : Phase} (change : Change s m id key old new) (c : Nat) :
    m.callers[c]? = if c = id then some ⟨key,new⟩ else s.callers[c]? := by
  rw [change.callers, lookupInsert]

theorem changeServed {old new : Phase} (change : Change s m id key old new)
    (before : (∃ other : Caller, s.callers[claimant]? = some other ∧ other.phase.serves) ∨ (s.channel claimant).closed) :
    (s.channel claimant).version ≤ (m.channel claimant).version ∧
      ((∃ other : Caller, m.callers[claimant]? = some other ∧ other.phase.serves) ∨ (m.channel claimant).closed) := by
  rw [changeLookup change]
  by_cases same : claimant = id
  · subst same
    have served : old.serves ∨ (s.channel claimant).closed := by
      obtain ⟨other,found,serves⟩ | closed := before
      · obtain here | ⟨absent,_⟩ := change.was
        · rw [here] at found
          cases found
          exact .inl serves
        · rw [absent] at found
          contradiction
      · exact .inr closed
    obtain ⟨grown,serves | closed⟩ := change.grows served
    · exact ⟨grown,.inl ⟨⟨key,new⟩,if_pos rfl,serves⟩⟩
    · exact ⟨grown,.inr closed⟩
  · rw [if_neg same, change.others claimant same]
    exact ⟨le_rfl,before⟩

theorem changeSound {old new : Phase} (sound : Sound s) (change : Change s m id key old new) : Sound m := by
  refine ⟨?_,?_,?_,?_,?_,?_,?_⟩
  · intro k c
    rw [change.inflight, changeLookup change]
    split
    case isTrue =>
      constructor
      · rintro ⟨rfl,active⟩
        exact ⟨new,rfl,active⟩
      · rintro ⟨phase,here,active⟩
        cases here
        exact ⟨rfl,active⟩
    case isFalse => exact sound.registered k c
  · have count := filterPut Phase.holds rfl change.was key new
    have slots := change.slots
    have before := sound.slots
    rw [change.callers]
    omega
  · intro c caller found
    rw [changeLookup change] at found
    split at found
    case isTrue same =>
      cases found
      exact same ▸ change.own
    case isFalse other =>
      rw [change.others c other]
      exact sound.own c caller found
  · intro c absent
    rw [changeLookup change] at absent
    split at absent <;> try contradiction
    case isFalse other =>
      rw [change.others c other]
      exact sound.unused c absent
  · intro c
    by_cases same : c = id
    · exact same ▸ change.versions
    · rw [change.others c same]
      exact sound.versions c
  · intro c claimant caller found listens
    rw [changeLookup change] at found
    split at found
    case isTrue =>
      cases found
      exact (changeServed change (change.served claimant listens)).2
    case isFalse => exact (changeServed change (sound.served c claimant caller found listens)).2
  · intro c claimant caller found listens
    rw [changeLookup change] at found
    split at found
    case isTrue =>
      cases found
      exact change.seen claimant listens
    case isFalse =>
      have grown := (changeServed change (sound.served c claimant caller found listens)).1
      have before := sound.seen c claimant caller found listens
      cases phase : caller.phase with
      | subscribed other seen =>
        rw [phase] at before
        exact before.trans grown
      | awaiting other seen =>
        rw [phase] at before
        exact before
      | calling | acquiring | polling | releasing | publishing | leaving | closing | returned | cancelled => exact trivial

theorem ownEntry (sound : Sound s) {old : Phase} (was : Was s id key old) (k : String) : s.inflight[k]? = some id ↔ k = key ∧ old.active := by
  rw [sound.registered]
  obtain found | ⟨absent,rfl⟩ := was
  · rw [found]
    constructor
    · rintro ⟨phase,here,active⟩
      cases here
      exact ⟨rfl,active⟩
    · rintro ⟨rfl,active⟩
      exact ⟨old,rfl,active⟩
  · rw [absent]
    simp [Phase.active]

theorem entryKept (sound : Sound s) {old new : Phase} (was : Was s id key old) (active : new.active = old.active) (k : String) (c : Nat) :
    s.inflight[k]? = some c ↔ if c = id then k = key ∧ new.active else s.inflight[k]? = some c := by
  split
  case isTrue same => rw [same, ownEntry sound was, active]
  case isFalse => rfl

theorem channelInsert {w : Channel} (inserted : m.channels = s.channels.insert id w) (c : Nat) : m.channel c = if c = id then w else s.channel c := by
  rw [State.channel, inserted, lookupInsert]
  split <;> rfl

/- A step that touches nothing but the caller. -/
theorem putChange (sound : Sound s) {old new : Phase} (found : s.callers[id]? = some ⟨key,old⟩) (active : new.active = old.active)
    (holds : new.holds = old.holds) (own : Own (s.channel id) new) (serves : old.serves → new.serves)
    (served : ∀ claimant : Nat, new.listensTo claimant → (∃ other : Caller, s.callers[claimant]? = some other ∧ other.phase.serves) ∨ (s.channel claimant).closed)
    (seen : ∀ claimant : Nat, new.listensTo claimant → Seen (s.channel claimant) new) : Change s (s.put id key new) id key old new where
  was := .inl found
  callers := rfl
  others _ _ := rfl
  inflight := entryKept sound (.inl found) active
  slots := by rw [holds]; rfl
  own := own
  versions := sound.versions id
  grows before := ⟨le_rfl,before.imp_left serves⟩
  served := served
  seen := seen

theorem movedChange (sound : Sound s) {event : Event} (moved : Moved s event m) : ∃ id key old new, Change s m id key old new := by
  cases moved with
  | @called id key absent =>
    refine ⟨id,key,.cancelled,.calling,.inr ⟨absent,rfl⟩,rfl,fun _ _ => rfl,entryKept sound (.inr ⟨absent,rfl⟩) rfl,rfl,sound.unused id absent,
      sound.versions id,fun before => ⟨le_rfl,.inr ?_⟩,fun _ listens => by contradiction,fun _ listens => by contradiction⟩
    exact before.resolve_left (by decide)
  | @claimed id key found free =>
    have own : s.channel id = fresh := sound.own id _ found
    have channel (c : Nat) : (({ s with inflight := s.inflight.insert key id, channels := s.channels.insert id fresh } : State).put id key .acquiring).channel c =
        if c = id then fresh else s.channel c := channelInsert rfl c
    refine ⟨id,key,.calling,.acquiring,.inl found,rfl,?_,?_,rfl,?_,?_,fun before => ⟨?_,.inl rfl⟩,fun _ listens => by contradiction,fun _ listens => by contradiction⟩
    · intro c other
      rw [channel, if_neg other]
    · intro k c
      change (s.inflight.insert key id)[k]? = some c ↔ _
      rw [lookupInsert]
      have entry := ownEntry sound (.inl found) k
      by_cases same : k = key
      · subst same
        rw [if_pos rfl, free]
        by_cases claimant : c = id
        · simp [claimant, Phase.active]
        · simp [claimant, Ne.symm claimant]
      · rw [if_neg same]
        by_cases claimant : c = id
        · rw [claimant, entry, if_pos rfl]
          simp [same]
        · rw [if_neg claimant]
    · rw [channel, if_pos rfl]
      rfl
    · rw [channel, if_pos rfl]
      rfl
    · rw [channel, if_pos rfl, own]
  | @joined id claimant key found taken =>
    obtain ⟨phase,other,active⟩ := (sound.registered key claimant).mp taken
    refine ⟨id,key,_,_,putChange sound found rfl rfl trivial (fun serves => by contradiction) ?_ (fun _ _ => Nat.zero_le _)⟩
    intro c listens
    cases of_decide_eq_true listens
    exact .inl ⟨_,other,by cases phase <;> first | rfl | contradiction⟩
  | @slotted id key found free =>
    refine ⟨id,key,.acquiring,.polling,.inl found,rfl,fun _ _ => rfl,entryKept sound (.inl found) rfl,?_,sound.own id _ found,
      sound.versions id,fun _ => ⟨le_rfl,.inl rfl⟩,fun _ listens => by contradiction,fun _ listens => by contradiction⟩
    change s.pollSlots - 1 + 1 = s.pollSlots + 0
    omega
  | @timedOut id key found =>
    exact ⟨id,key,_,_,putChange sound found rfl rfl (sound.own id _ found) (fun _ => rfl) (fun _ listens => by contradiction) (fun _ listens => by contradiction)⟩
  | @polled id key result found =>
    exact ⟨id,key,_,_,putChange sound found rfl rfl (sound.own id _ found) (fun _ => rfl) (fun _ listens => by contradiction) (fun _ listens => by contradiction)⟩
  | @released id key outcome found =>
    have own : s.channel id = fresh := sound.own id _ found
    refine ⟨id,key,.releasing outcome,.released outcome,.inl found,rfl,fun _ _ => rfl,entryKept sound (.inl found) (by cases outcome <;> rfl),
      by cases outcome <;> rfl,?_,sound.versions id,fun _ => ⟨le_rfl,.inl (by cases outcome <;> rfl)⟩,?_,?_⟩
    · change Own (s.channel id) (.released outcome)
      rw [own]
      cases outcome <;> rfl
    · cases outcome <;> exact fun _ listens => by contradiction
    · cases outcome <;> exact fun _ listens => by contradiction
  | @published id key result found =>
    have own : s.channel id = fresh := sound.own id _ found
    have received : s.received id = true := by
      refine (Bool.or_eq_true _ _).mpr (.inl (hasRowIff.mpr ⟨key,id,?_,decide_eq_true rfl⟩))
      exact (sound.registered key id).mpr ⟨_,found,rfl⟩
    have channel (c : Nat) : (({ s with channels := s.channels.insert id ((s.channel id).send (s.received id) (some result)) } : State).put id key
        (.leaving (some result))).channel c = if c = id then ⟨some result,1,false⟩ else s.channel c := by
      refine (channelInsert rfl c).trans ?_
      rw [received, own]
      rfl
    refine ⟨id,key,.publishing result,.leaving (some result),.inl found,rfl,?_,entryKept sound (.inl found) rfl,rfl,?_,?_,fun _ => ⟨?_,.inl rfl⟩,
      fun _ listens => by contradiction,fun _ listens => by contradiction⟩
    · intro c other
      rw [channel, if_neg other]
    · rw [channel, if_pos rfl]
      rfl
    · rw [channel, if_pos rfl]
      rfl
    · rw [channel, if_pos rfl, own]
      exact Nat.zero_le _
  | @left id key outcome found =>
    have entry := ownEntry sound (.inl found)
    refine ⟨id,key,.leaving outcome,.closing outcome,.inl found,rfl,fun _ _ => rfl,?_,rfl,sound.own id _ found,
      sound.versions id,fun _ => ⟨le_rfl,.inl rfl⟩,fun _ listens => by contradiction,fun _ listens => by contradiction⟩
    intro k c
    change (s.inflight.erase key)[k]? = some c ↔ _
    rw [lookupErase]
    by_cases same : k = key
    · have here : s.inflight[k]? = some id := (entry k).mpr ⟨same,rfl⟩
      rw [if_pos same, here]
      by_cases claimant : c = id
      · simp [claimant, Phase.active]
      · simp [claimant, Ne.symm claimant]
    · rw [if_neg same]
      by_cases claimant : c = id
      · rw [claimant, entry k, if_pos rfl]
        simp [same]
      · rw [if_neg claimant]
  | @closed id key outcome found =>
    have own : s.channel id = ⟨outcome,if outcome.isSome then 1 else 0,false⟩ := sound.own id _ found
    have channel (c : Nat) : (({ s with channels := s.channels.insert id (s.channel id).close } : State).put id key (.ended outcome)).channel c =
        if c = id then ⟨outcome,if outcome.isSome then 1 else 0,true⟩ else s.channel c := by
      refine (channelInsert rfl c).trans ?_
      rw [own]
      rfl
    refine ⟨id,key,.closing outcome,.ended outcome,.inl found,rfl,?_,entryKept sound (.inl found) (by cases outcome <;> rfl),by cases outcome <;> rfl,
      by cases outcome <;> exact trivial,?_,fun _ => ⟨?_,.inr ?_⟩,?_,?_⟩
    · intro c other
      rw [channel, if_neg other]
    · rw [channel, if_pos rfl]
    · rw [channel, if_pos rfl, own]
    · rw [channel, if_pos rfl]
    · cases outcome <;> exact fun _ listens => by contradiction
    · cases outcome <;> exact fun _ listens => by contradiction
  | @heard id claimant seen key result found value =>
    exact ⟨id,key,_,_,putChange sound found rfl rfl trivial (fun serves => by contradiction) (fun _ listens => by contradiction) (fun _ listens => by contradiction)⟩
  | @slept id claimant seen key found value =>
    refine ⟨id,key,_,_,putChange sound found rfl rfl trivial (fun serves => by contradiction) (fun c listens => sound.served id c _ found listens) ?_⟩
    intro c _
    change (s.channel claimant).version = 0
    rw [sound.versions, value]
    rfl
  | @woken id claimant seen key found changed =>
    refine ⟨id,key,_,_,putChange sound found rfl rfl trivial (fun serves => by contradiction) (fun c listens => sound.served id c _ found listens) ?_⟩
    intro c listens
    cases of_decide_eq_true listens
    exact le_rfl
  | @orphaned id claimant seen key found same closed =>
    exact ⟨id,key,_,_,putChange sound found rfl rfl trivial (fun serves => by contradiction) (fun _ listens => by contradiction) (fun _ listens => by contradiction)⟩
  | @dropped id key old new found dropped =>
    have own := sound.own id _ found
    refine ⟨id,key,old,new,?_⟩
    cases old with
    | calling | awaiting =>
      cases dropped
      exact putChange sound found rfl rfl trivial (fun serves => by contradiction) (fun _ listens => by contradiction) (fun _ listens => by contradiction)
    | acquiring | polling =>
      cases dropped
      exact putChange sound found rfl rfl own (fun _ => rfl) (fun _ listens => by contradiction) (fun _ listens => by contradiction)
    | releasing | publishing | leaving | closing | subscribed | returned | cancelled => contradiction

theorem startSound : Sound {} where
  registered key id := by simp
  slots := by decide
  own id caller found := by simp at found
  unused id _ := by rw [State.channel]; simp
  versions id := by rw [State.channel]; simp [fresh]
  served id claimant caller found := by simp at found
  seen id claimant caller found := by simp at found

theorem runSound (events : List Event) : Sound (run events) := by
  refine Machine.runInvariant Sound ?_ startSound events
  intro s event sound
  change Sound ((next s event).getD s)
  cases ok : next s event with
  | none => exact sound
  | some m =>
    obtain ⟨_,_,_,_,change⟩ := movedChange sound (nextMoved ok)
    exact changeSound sound change

end Moves

section Traces
variable {s m : State} {events : List Event} {event : Event} {id claimant : Nat} {key : String} {result : Convergence}

theorem happenedEarlier (happened : Happened events event) (last : Event) : Happened (events ++ [last]) event := by
  obtain ⟨k,at',able⟩ := happened
  have inside : k < events.length := (List.getElem?_eq_some_iff.mp at').1
  refine ⟨k,?_,?_⟩
  · rw [List.getElem?_append_left inside, at']
  · rwa [List.take_append_of_le_length inside.le]

theorem happenedNow (ok : next (run events) event = some m) : Happened (events ++ [event]) event := by
  refine ⟨events.length,by simp,?_⟩
  rw [List.take_left, ok]
  rfl

theorem verdictEarlier (verdict : Verdict events claimant result) (last : Event) : Verdict (events ++ [last]) claimant result :=
  verdict.imp (fun polled => happenedEarlier polled last) (fun saturated => saturated.imp_right (fun late => happenedEarlier late last))

theorem metEarlier (met : Met events id claimant) (last : Event) : Met (events ++ [last]) id claimant := by
  obtain ⟨k,caller,inside,found,running,entry⟩ := met
  refine ⟨k,caller,?_,?_⟩
  · rw [List.length_append]
    omega
  · rw [List.take_append_of_le_length inside]
    exact ⟨found,running,entry⟩

theorem metNow {caller : Caller} (found : (run events).callers[id]? = some caller) (running : 0 < caller.phase.remaining)
    (entry : (run events).inflight[caller.key]? = some claimant) : Met events id claimant :=
  ⟨events.length,caller,le_rfl,by rwa [List.take_length],running,by rwa [List.take_length]⟩

theorem answerEarlier (answer : Answer events id result) (last : Event) : Answer (events ++ [last]) id result := by
  obtain ⟨claimant,met,source⟩ := answer
  exact ⟨claimant,metEarlier met last,source.imp (fun verdict => verdictEarlier verdict last) (fun gone => gone.imp_right (fun happened => happenedEarlier happened last))⟩

/- What a claimant comes to: its verdict, or nothing where it was dropped. -/
def Result (events : List Event) (id : Nat) (outcome : Option Convergence) : Prop := outcome.elim (Happened events (.cancel id)) (Verdict events id)

theorem resultEarlier {outcome : Option Convergence} (before : Result events id outcome) (last : Event) : Result (events ++ [last]) id outcome := by
  cases outcome with
  | none => exact happenedEarlier before last
  | some result => exact verdictEarlier before last

/- What a phase says of the run. -/
def Backed (events : List Event) (id : Nat) : Phase → Prop
  | .calling => True
  | .acquiring | .polling => Met events id id
  | .releasing outcome | .leaving outcome | .closing outcome => Met events id id ∧ Result events id outcome
  | .publishing result => Met events id id ∧ Verdict events id result
  | .subscribed claimant _ | .awaiting claimant _ => Met events id claimant
  | .returned result => Answer events id result
  | .cancelled => Happened events (.cancel id)

theorem backedEarlier {phase : Phase} (backed : Backed events id phase) (last : Event) : Backed (events ++ [last]) id phase := by
  cases phase with
  | calling => exact trivial
  | acquiring | polling | subscribed | awaiting => exact metEarlier backed last
  | releasing | leaving | closing => exact ⟨metEarlier backed.1 last,resultEarlier backed.2 last⟩
  | publishing => exact ⟨metEarlier backed.1 last,verdictEarlier backed.2 last⟩
  | returned => exact answerEarlier backed last
  | cancelled => exact happenedEarlier backed last

structure Carried (events : List Event) (claimant : Nat) (w : Channel) : Prop where
  value : ∀ result, w.value = some result → Verdict events claimant result
  closed : w.closed → w.value = none → Happened events (.cancel claimant)

theorem carriedEarlier {w : Channel} (carried : Carried events claimant w) (last : Event) : Carried (events ++ [last]) claimant w :=
  ⟨fun result value => verdictEarlier (carried.value result value) last,fun closed value => happenedEarlier (carried.closed closed value) last⟩

theorem carriedFresh : Carried events claimant fresh := ⟨fun _ value => by contradiction,fun closed => by contradiction⟩

theorem carriedInsert {w : Channel} (inserted : m.channels = s.channels.insert id w) (carried : Carried events id w) : Carried events id (m.channel id) := by
  rw [channelInsert inserted, if_pos rfl]
  exact carried

structure Traced (events : List Event) (s : State) : Prop where
  callers : ∀ (id : Nat) (caller : Caller), s.callers[id]? = some caller → Backed events id caller.phase
  channels : ∀ claimant : Nat, Carried events claimant (s.channel claimant)

theorem tracedPut (traced : Traced events s) (last : Event) {new : Phase} (callers : m.callers = s.callers.insert id ⟨key,new⟩)
    (others : ∀ c : Nat, c ≠ id → m.channel c = s.channel c) (backed : Backed (events ++ [last]) id new)
    (carried : Carried (events ++ [last]) id (m.channel id)) : Traced (events ++ [last]) m := by
  constructor
  · intro c caller found
    rw [callers, lookupInsert] at found
    split at found
    case isTrue same =>
      cases found
      exact same ▸ backed
    case isFalse => exact backedEarlier (traced.callers c caller found) last
  · intro c
    by_cases same : c = id
    · exact same ▸ carried
    · rw [others c same]
      exact carriedEarlier (traced.channels c) last

theorem nextTraced (sound : Sound (run events)) (traced : Traced events (run events)) (ok : next (run events) event = some m) :
    Traced (events ++ [event]) m := by
  have after : run (events ++ [event]) = m := by
    rw [run, Machine.runNext]
    change (next (run events) event).getD (run events) = m
    rw [ok]
    rfl
  have same (c : Nat) : Carried (events ++ [event]) c ((run events).channel c) := carriedEarlier (traced.channels c) event
  have kept {id : Nat} {key : String} {phase : Phase} (found : (run events).callers[id]? = some ⟨key,phase⟩) : Backed (events ++ [event]) id phase :=
    backedEarlier (traced.callers id _ found) event
  have happened := happenedNow ok
  have met {id claimant : Nat} {caller : Caller} (found : m.callers[id]? = some caller) (running : 0 < caller.phase.remaining)
      (entry : m.inflight[caller.key]? = some claimant) : Met (events ++ [event]) id claimant := metNow (after ▸ found) running (after ▸ entry)
  cases nextMoved ok with
  | @called id key => exact tracedPut traced _ rfl (fun _ _ => rfl) trivial (same id)
  | @claimed id key found free =>
    refine tracedPut traced _ rfl (fun c other => (channelInsert rfl c).trans (if_neg other)) ?_ ?_
    · exact met ((lookupInsert _ _ _ _).trans (if_pos rfl)) (by simp [Phase.remaining]) ((lookupInsert _ _ _ _).trans (if_pos rfl))
    · exact carriedInsert rfl carriedFresh
  | @joined id claimant key found taken =>
    exact tracedPut traced _ rfl (fun _ _ => rfl) (met ((lookupInsert _ _ _ _).trans (if_pos rfl)) (by simp [Phase.remaining]) taken) (same id)
  | @slotted id key found =>
    have backed := kept found
    exact tracedPut traced _ rfl (fun _ _ => rfl) backed (same id)
  | @timedOut id key found => exact tracedPut traced _ rfl (fun _ _ => rfl) ⟨kept found,.inr ⟨rfl,happened⟩⟩ (same id)
  | @polled id key result found => exact tracedPut traced _ rfl (fun _ _ => rfl) ⟨kept found,.inl happened⟩ (same id)
  | @released id key outcome found =>
    have backed := kept found
    refine tracedPut traced _ rfl (fun _ _ => rfl) ?_ (same id)
    cases outcome <;> exact backed
  | @published id key result found =>
    have backed := kept found
    have own : (run events).channel id = fresh := sound.own id _ found
    refine tracedPut traced _ rfl (fun c other => (channelInsert rfl c).trans (if_neg other)) ⟨backed.1,backed.2⟩ ?_
    refine carriedInsert rfl ?_
    rw [own, Watch.send]
    split
    · exact ⟨fun r value => Option.some.inj value ▸ backed.2,fun closed => by contradiction⟩
    · exact carriedFresh
  | @left id key outcome found =>
    have backed := kept found
    exact tracedPut traced _ rfl (fun _ _ => rfl) backed (same id)
  | @closed id key outcome found =>
    have backed := kept found
    have own : (run events).channel id = ⟨outcome,if outcome.isSome then 1 else 0,false⟩ := sound.own id _ found
    refine tracedPut traced _ rfl (fun c other => (channelInsert rfl c).trans (if_neg other)) ?_ ?_
    · cases outcome with
      | none => exact backed.2
      | some result => exact ⟨id,backed.1,.inl backed.2⟩
    · refine carriedInsert rfl ?_
      rw [own]
      refine ⟨?_,?_⟩
      · rintro result rfl
        exact backed.2
      · rintro _ rfl
        exact backed.2
  | @heard id claimant seen key result found value =>
    exact tracedPut traced _ rfl (fun _ _ => rfl) ⟨claimant,kept found,.inl ((same claimant).value result value)⟩ (same id)
  | @slept id claimant seen key found value =>
    have backed := kept found
    exact tracedPut traced _ rfl (fun _ _ => rfl) backed (same id)
  | @woken id claimant seen key found changed =>
    have backed := kept found
    exact tracedPut traced _ rfl (fun _ _ => rfl) backed (same id)
  | @orphaned id claimant seen key found version closed =>
    have unsent : ((run events).channel claimant).value = none := by
      have nothing : seen = 0 := sound.seen id claimant _ found (decide_eq_true rfl)
      have versions := sound.versions claimant
      rw [version, nothing] at versions
      cases value : ((run events).channel claimant).value with
      | none => rfl
      | some result =>
        rw [value] at versions
        contradiction
    exact tracedPut traced _ rfl (fun _ _ => rfl) ⟨claimant,kept found,.inr ⟨rfl,(same claimant).closed closed unsent⟩⟩ (same id)
  | @dropped id key old new found dropped =>
    refine tracedPut traced _ rfl (fun _ _ => rfl) ?_ (same id)
    have backed := kept found
    cases old with
    | calling | awaiting =>
      cases dropped
      exact happened
    | acquiring | polling =>
      cases dropped
      exact ⟨backed,happened⟩
    | releasing | publishing | leaving | closing | subscribed | returned | cancelled => contradiction

theorem runTraced (events : List Event) : Traced events (run events) := by
  have empty (id : Nat) : (run []).callers[id]? = none := by
    change (∅ : BTreeMap Nat Caller)[id]? = none
    simp
  have both : run events = run events ∧ Traced events (run events) := by
    refine Machine.runHistory (fun events s => s = run events ∧ Traced events s) ⟨rfl,fun id caller found => by rw [empty] at found; contradiction,fun claimant => ?_⟩ ?_ events
    · rw [(runSound []).unused claimant (empty claimant)]
      exact carriedFresh
    · rintro events s event ⟨rfl,traced⟩
      refine ⟨(Machine.runNext _ _ _).symm,?_⟩
      change Traced (events ++ [event]) ((next (run events) event).getD (run events))
      cases ok : next (run events) event with
      | none => exact ⟨fun id caller found => backedEarlier (traced.callers id caller found) event,fun c => carriedEarlier (traced.channels c) event⟩
      | some m => exact nextTraced (runSound events) traced ok
  exact both.2

end Traces

section Ends
variable {s m : State} {id : Nat} {key : String}

theorem remainingPut {old new : Phase} (found : s.callers[id]? = some ⟨key,old⟩) (callers : m.callers = s.callers.insert id ⟨key,new⟩)
    (less : new.remaining < old.remaining) : m.remaining < s.remaining := by
  rw [State.remaining, State.remaining, callers, totalInsert, totalErase _ found]
  exact Nat.add_lt_add_right less _

/- Every step but a call brings its caller nearer to the end. -/
theorem nextRemaining (sound : Sound s) {event : Event} (goes : event.calls = false) (ok : next s event = some m) : m.remaining < s.remaining := by
  cases nextMoved ok with
  | called => contradiction
  | claimed found | slotted found | timedOut found | polled result found | published found | left found => exact remainingPut found rfl (by simp [Phase.remaining])
  | joined found => exact remainingPut found rfl (by simp [Phase.remaining])
  | @released id key outcome found => exact remainingPut found rfl (by cases outcome <;> simp [Phase.released, Phase.remaining])
  | @closed id key outcome found => exact remainingPut found rfl (by cases outcome <;> simp [Phase.ended, Phase.remaining])
  | @heard id claimant seen key result found =>
    refine remainingPut found rfl ?_
    simp only [Phase.remaining]
    split <;> decide
  | @slept id claimant seen key found value =>
    have nothing : seen = 0 := by
      have behind : seen ≤ (s.channel claimant).version := sound.seen id claimant _ found (decide_eq_true rfl)
      rw [sound.versions, value] at behind
      exact Nat.le_zero.mp behind
    exact remainingPut found rfl (by simp [Phase.remaining, nothing])
  | @woken id claimant seen key found changed =>
    have nothing : seen = 0 := sound.seen id claimant _ found (decide_eq_true rfl)
    rw [nothing] at changed
    exact remainingPut found rfl (by simp [Phase.remaining, changed])
  | orphaned found => exact remainingPut found rfl (by simp [Phase.remaining])
  | @dropped id key old new found dropped =>
    refine remainingPut found rfl ?_
    cases old <;> cases dropped <;> simp [Phase.remaining]

theorem alongRemaining (sound : Sound s) {more : List Event}
    (goes : Machine.along step (fun s event => !event.calls ∧ (next s event).isSome) s more) : more.length ≤ s.remaining := by
  induction more generalizing s with
  | nil => exact Nat.zero_le _
  | cons event rest ih =>
    obtain ⟨⟨other,able⟩,later⟩ := goes
    obtain ⟨m,ok⟩ := Option.isSome_iff_exists.mp able
    have here : (step s event).2 = m := by
      change (next s event).getD s = m
      rw [ok]
      rfl
    obtain ⟨_,_,_,_,change⟩ := movedChange sound (nextMoved ok)
    rw [here] at later
    have shorter := nextRemaining sound ((Bool.not_eq_true' _).mp other) ok
    have bound := ih (changeSound sound change) later
    rw [List.length_cons]
    omega

/- A caller that serves others can go on. -/
theorem servesGoes {caller : Caller} (found : s.callers[id]? = some caller) (serves : caller.phase.serves) :
    ∃ event : Event, !event.calls ∧ !event.cancels ∧ (next s event).isSome := by
  obtain ⟨key,phase⟩ := caller
  cases phase with
  | acquiring => exact ⟨.timeOut id,rfl,rfl,by simp [next, found]⟩
  | polling => exact ⟨.polled id .saturated,rfl,rfl,by simp [next, found]⟩
  | releasing | publishing | leaving | closing => exact ⟨.resume id,rfl,rfl,by simp [next, found, resume]⟩
  | calling | subscribed | awaiting | returned | cancelled => contradiction

/- As long as a call has not ended, some caller can go on. -/
theorem runningGoes (sound : Sound s) {caller : Caller} (found : s.callers[id]? = some caller) :
    (∃ result, caller.phase = .returned result) ∨ caller.phase = .cancelled ∨ ∃ event : Event, !event.calls ∧ !event.cancels ∧ (next s event).isSome := by
  obtain ⟨key,phase⟩ := caller
  cases phase with
  | acquiring | polling | releasing | publishing | leaving | closing => exact .inr (.inr (servesGoes found rfl))
  | calling | subscribed => exact .inr (.inr ⟨.resume id,rfl,rfl,by simp [next, found, resume]⟩)
  | returned result => exact .inl ⟨result,rfl⟩
  | cancelled => exact .inr (.inl rfl)
  | awaiting claimant seen =>
    refine .inr (.inr ?_)
    obtain ⟨other,there,serves⟩ | closed := sound.served id claimant _ found (decide_eq_true rfl)
    · exact servesGoes there serves
    · refine ⟨.resume id,rfl,rfl,?_⟩
      by_cases same : (s.channel claimant).version = seen
      · simp [next, found, resume, wake, Watch.changed, same, closed]
      · simp [next, found, resume, wake, Watch.changed, same]

/- At most one poll a key and four in all; an entry for as long as its claimant is active; and every caller that is not
dropped comes to the end with the result of one it found registered. -/
theorem coalesced (events : List Event) : Coalesced events := by
  have sound := runSound events
  have traced := runTraced events
  refine ⟨?_,?_,sound.registered,fun id key result found => traced.callers id _ found,fun id key found => traced.callers id _ found,?_,
    fun more goes => alongRemaining sound goes⟩
  · intro a b key here there
    have first := (sound.registered key a).mpr ⟨_,here,rfl⟩
    have second := (sound.registered key b).mpr ⟨_,there,rfl⟩
    exact Option.some.inj (first.symm.trans second)
  · refine le_trans (sizeLe ?_) ((Nat.le_add_left _ _).trans sound.slots.le)
    intro id
    simp only [ExtTreeMap.getElem?_filter', Option.isSome_filter, Option.any_eq_true, decide_eq_true_eq]
    rintro ⟨caller,found,polls⟩
    exact ⟨caller,found,by rw [polls]; rfl⟩
  · intro quiet id caller found
    obtain returned | cancelled | ⟨event,own,kept,able⟩ := runningGoes sound found
    · exact .inl returned
    · exact .inr cancelled
    · rw [quiet event own kept] at able
      contradiction

end Ends
end CadsTunnel.ConvergenceCoalescer
