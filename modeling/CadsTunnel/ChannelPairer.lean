import CadsTunnel.ChannelObjects
import CadsTunnel.OrderedMap
import CadsTunnel.Machine

/-! The pairing correlator of the edge's channel broker: a queue of parked members for
each channel. The death flag of a park is set from outside at any time, so every read
of a flag takes the next moment of a history of flags. A member that is found dead is
dropped and only counted; the model also hands it out, for the accounting. -/
namespace CadsTunnel.Pairing
open OrderedMap

inductive ParkPhase where
  | rendezvous
  | relay
  | unmarked
  deriving DecidableEq, Repr

def ParkPhase.compatible (a b : ParkPhase) : Bool := a = b || a = .unmarked || b = .unmarked

/- A flag shared with the park's pump, if the park is monitored at all. -/
abbrev ParkLiveness := Option Nat

/- The observed address only feeds a log line and is left out. -/
structure WaitingMember (T : Type) where
  channel : ChannelId
  holder : Key
  deadline : UnixSeconds
  liveness : ParkLiveness
  phase : ParkPhase
  payload : T
  deriving DecidableEq, Repr

/- Which flags are set at which moment. -/
abbrev Flags := Nat → Nat → Bool

def isDead {T : Type} (flags : Flags) (moment : Nat) (w : WaitingMember T) : Bool := w.liveness.any (flags moment)

inductive PairOutcome (T : Type) where
  | parked
  | paired (candidate member : WaitingMember T)
  | superseded (stale : WaitingMember T)
  deriving DecidableEq, Repr

def parksPerMember : Nat := 4

structure ChannelPairer (T : Type) where
  waiting : BTreeMap ChannelId (List (WaitingMember T))
  deadDropped : UInt64

/- What a pass over a queue leaves: the members kept in order, the one it picked, the
ones it dropped, and the moment after its last read. -/
structure Pass (T : Type) where
  kept : List (WaitingMember T)
  picked : List (WaitingMember T)
  dropped : List (WaitingMember T)
  moment : Nat

section Passes
variable {T : Type} (flags : Flags)

def Pass.keep (w : WaitingMember T) (p : Pass T) : Pass T := { p with kept := w :: p.kept }
def Pass.pick (w : WaitingMember T) (p : Pass T) : Pass T := { p with picked := w :: p.picked }
def Pass.drop (w : WaitingMember T) (p : Pass T) : Pass T := { p with dropped := w :: p.dropped }

/- The search of `offer`: up to the first live member of another holder with a compatible phase. -/
def search (member : WaitingMember T) (moment : Nat) : List (WaitingMember T) → Pass T
  | [] => ⟨[],[],[],moment⟩
  | w :: rest =>
    if isDead flags moment w then (search member (moment + 1) rest).drop w
    else if w.holder ≠ member.holder && w.phase.compatible member.phase then ⟨rest,[w],[],moment + 1⟩
    else (search member (moment + 1) rest).keep w

/- The `retain` of `offer`: it reads the flags of the holder's own parks only. -/
def purge (holder : Key) (moment : Nat) : List (WaitingMember T) → Pass T
  | [] => ⟨[],[],[],moment⟩
  | w :: rest =>
    if w.holder ≠ holder then (purge holder moment rest).keep w
    else if isDead flags moment w then (purge holder (moment + 1) rest).drop w
    else (purge holder (moment + 1) rest).keep w

/- The sweep of `drain_expired` over one queue. -/
def sweep (now : UnixSeconds) (moment : Nat) : List (WaitingMember T) → Pass T
  | [] => ⟨[],[],[],moment⟩
  | w :: rest =>
    if isDead flags moment w then (sweep now (moment + 1) rest).drop w
    else if w.deadline ≤ now then (sweep now (moment + 1) rest).pick w
    else (sweep now (moment + 1) rest).keep w

end Passes

namespace ChannelPairer
variable {T : Type} (flags : Flags)

def new : ChannelPairer T := ⟨∅,0⟩

/- An emptied queue leaves the map. -/
def putQueue (s : ChannelPairer T) (channel : ChannelId) (queue : List (WaitingMember T)) : ChannelPairer T :=
  { s with waiting := if queue.isEmpty then s.waiting.erase channel else s.waiting.insert channel queue }

def countDropped (s : ChannelPairer T) (dropped : List (WaitingMember T)) : ChannelPairer T :=
  { s with deadDropped := s.deadDropped + .ofNat dropped.length }

def takeDeadDropped (s : ChannelPairer T) : UInt64 × ChannelPairer T := (s.deadDropped,{ s with deadDropped := 0 })

/- What a call hands out besides its answer: the dropped members and the moment after it. -/
structure Answer (T : Type) where
  outcome : PairOutcome T
  dropped : List (WaitingMember T)
  moment : Nat
  pairer : ChannelPairer T

def offer (s : ChannelPairer T) (moment : Nat) (member : WaitingMember T) : Answer T :=
  let found := search flags member moment (queueAt s.waiting member.channel)
  match found.picked with
  | candidate :: _ =>
    ⟨.paired candidate member,found.dropped,found.moment,
      (s.countDropped found.dropped).putQueue member.channel found.kept⟩
  | [] =>
    let own := purge flags member.holder found.moment found.kept
    let dropped := found.dropped ++ own.dropped
    let queue := own.kept ++ [member]
    let ownCount := queue.countP fun w => w.holder = member.holder
    if ownCount > parksPerMember then
      match queue.find? fun w => w.holder = member.holder with
      | some stale =>
        ⟨.superseded stale,dropped,own.moment,
          (s.countDropped dropped).putQueue member.channel (queue.eraseP fun w => w.holder = member.holder)⟩
      | none => ⟨.parked,dropped,own.moment,(s.countDropped dropped).putQueue member.channel queue⟩
    else ⟨.parked,dropped,own.moment,(s.countDropped dropped).putQueue member.channel queue⟩

structure Drained (T : Type) where
  drained : List (WaitingMember T)
  dropped : List (WaitingMember T)
  moment : Nat
  pairer : ChannelPairer T

/- The map is visited in no particular order; `order` lists the channels as they come. -/
def drainExpired (now : UnixSeconds) : List ChannelId → ChannelPairer T → Nat → Drained T
  | [], s, moment => ⟨[],[],moment,s⟩
  | channel :: order, s, moment =>
    let swept := sweep flags now moment (queueAt s.waiting channel)
    let rest := drainExpired now order ((s.countDropped swept.dropped).putQueue channel swept.kept) swept.moment
    ⟨swept.picked ++ rest.drained,swept.dropped ++ rest.dropped,rest.moment,rest.pairer⟩

end ChannelPairer

inductive Call (T : Type) where
  | offer (member : WaitingMember T)
  | drainExpired (now : UnixSeconds) (order : List ChannelId)
  | takeDeadDropped

inductive Reply (T : Type) where
  | outcome (outcome : PairOutcome T)
  | drained (members : List (WaitingMember T))
  | taken (count : UInt64)

/- The pairer and the moment the next flag is read. -/
structure Broker (T : Type) where
  pairer : ChannelPairer T
  moment : Nat

namespace Broker
variable {T : Type} (flags : Flags)

def new : Broker T := ⟨.new,0⟩

def call (s : Broker T) : Call T → (Reply T × List (WaitingMember T)) × Broker T
  | .offer member =>
    let answer := s.pairer.offer flags s.moment member
    ((.outcome answer.outcome,answer.dropped),⟨answer.pairer,answer.moment⟩)
  | .drainExpired now order =>
    let answer := ChannelPairer.drainExpired flags now order s.pairer s.moment
    ((.drained answer.drained,answer.dropped),⟨answer.pairer,answer.moment⟩)
  | .takeDeadDropped => ((.taken s.pairer.takeDeadDropped.1,[]),⟨s.pairer.takeDeadDropped.2,s.moment⟩)

def run (calls : List (Call T)) : Broker T := Machine.run (call flags) new calls

end Broker

def Call.offered {T : Type} : Call T → List (WaitingMember T)
  | .offer member => [member]
  | .drainExpired .. => []
  | .takeDeadDropped => []

def Reply.returned {T : Type} : Reply T → List (WaitingMember T)
  | .outcome .parked => []
  | .outcome (.paired candidate member) => [candidate,member]
  | .outcome (.superseded stale) => [stale]
  | .drained members => members
  | .taken _ => []

def Reply.takenCount {T : Type} : Reply T → List UInt64
  | .outcome _ => []
  | .drained _ => []
  | .taken count => [count]

section History
variable {T : Type} (flags : Flags) (calls : List (Call T))

def offered : List (WaitingMember T) := calls.flatMap Call.offered

def returned : List (WaitingMember T) :=
  Machine.log (Broker.call flags) (fun s call => (s.call flags call).1.1.returned) Broker.new calls

def dropped : List (WaitingMember T) :=
  Machine.log (Broker.call flags) (fun s call => (s.call flags call).1.2) Broker.new calls

def taken : List UInt64 :=
  Machine.log (Broker.call flags) (fun s call => (s.call flags call).1.1.takenCount) Broker.new calls

end History

section Passes
variable {T : Type} {flags : Flags}

/- A pass loses and adds nothing, and what it keeps stays in order. -/
structure Pass.Splits (p : Pass T) (queue : List (WaitingMember T)) : Prop where
  accounts : queue.Perm (p.kept ++ (p.picked ++ p.dropped))
  ordered : p.kept.Sublist queue

theorem splitsNil (moment : Nat) : (⟨[],[],[],moment⟩ : Pass T).Splits [] := ⟨.nil,.slnil⟩

theorem Pass.Splits.keep {p : Pass T} {queue : List (WaitingMember T)} (splits : p.Splits queue) (w : WaitingMember T) :
    (p.keep w).Splits (w :: queue) := ⟨splits.accounts.cons w,splits.ordered.cons_cons w⟩

theorem Pass.Splits.pick {p : Pass T} {queue : List (WaitingMember T)} (splits : p.Splits queue) (w : WaitingMember T) :
    (p.pick w).Splits (w :: queue) :=
  ⟨(splits.accounts.cons w).trans List.perm_middle.symm,splits.ordered.cons w⟩

theorem Pass.Splits.drop {p : Pass T} {queue : List (WaitingMember T)} (splits : p.Splits queue) (w : WaitingMember T) :
    (p.drop w).Splits (w :: queue) := by
  refine ⟨(splits.accounts.cons w).trans ?_,splits.ordered.cons w⟩
  simp only [Pass.drop, ← List.append_assoc]
  exact List.perm_middle.symm

theorem searchSplits (flags : Flags) (member : WaitingMember T) (moment : Nat) (queue : List (WaitingMember T)) :
    (search flags member moment queue).Splits queue := by
  induction queue generalizing moment with
  | nil => exact splitsNil moment
  | cons w rest ih =>
    rw [search]
    split
    · exact (ih _).drop w
    · split
      · exact ⟨(List.perm_append_singleton w rest).symm,List.sublist_cons_self w rest⟩
      · exact (ih _).keep w

theorem purgeSplits (flags : Flags) (holder : Key) (moment : Nat) (queue : List (WaitingMember T)) :
    (purge flags holder moment queue).Splits queue := by
  induction queue generalizing moment with
  | nil => exact splitsNil moment
  | cons w rest ih =>
    rw [purge]
    split
    · exact (ih _).keep w
    · split
      · exact (ih _).drop w
      · exact (ih _).keep w

theorem purgePicked (flags : Flags) (holder : Key) (moment : Nat) (queue : List (WaitingMember T)) :
    (purge flags holder moment queue).picked = [] := by
  induction queue generalizing moment with
  | nil => rfl
  | cons w rest ih =>
    rw [purge]
    split
    · exact ih _
    · split
      · exact ih _
      · exact ih _

theorem sweepSplits (flags : Flags) (now : UnixSeconds) (moment : Nat) (queue : List (WaitingMember T)) :
    (sweep flags now moment queue).Splits queue := by
  induction queue generalizing moment with
  | nil => exact splitsNil moment
  | cons w rest ih =>
    rw [sweep]
    split
    · exact (ih _).drop w
    · split
      · exact (ih _).pick w
      · exact (ih _).keep w

/- Two members that do not pair. -/
def Apart (x y : WaitingMember T) : Prop := x.holder = y.holder ∨ x.phase.compatible y.phase = false

theorem notApart {w member : WaitingMember T} :
    (w.holder ≠ member.holder && w.phase.compatible member.phase) = true ↔ ¬Apart w member := by
  simp [Apart]

theorem searchKept {member : WaitingMember T} {moment : Nat} {queue : List (WaitingMember T)}
    (alone : (search flags member moment queue).picked = []) :
    ∀ w ∈ (search flags member moment queue).kept, Apart w member := by
  induction queue generalizing moment with
  | nil => simp [search]
  | cons w rest ih =>
    rw [search] at alone ⊢
    split at alone
    · rename_i dead
      rw [if_pos dead]
      exact ih alone
    · rename_i live
      rw [if_neg live]
      split at alone
      · simp at alone
      · rename_i apart
        rw [if_neg apart]
        intro x mem
        rcases List.mem_cons.mp mem with rfl | later
        · by_contra together
          exact apart (notApart.mpr together)
        · exact ih alone x later

/- Flags are never cleared. -/
def Sticky (flags : Flags) : Prop := ∀ handle t t', t ≤ t' → flags t handle = true → flags t' handle = true

theorem stillDead (sticky : Sticky flags) {t t' : Nat} (later : t ≤ t') {w : WaitingMember T}
    (dead : isDead flags t w = true) : isDead flags t' w = true := by
  unfold isDead at dead ⊢
  obtain ⟨handle,same,flag⟩ := (Option.any_eq_true _ _).mp dead
  exact (Option.any_eq_true _ _).mpr ⟨handle,same,sticky handle t t' later flag⟩

/- The pick was live when it was read, and at that moment nothing in front of it could pair. -/
theorem searchPicked (sticky : Sticky flags) {member candidate : WaitingMember T} {moment : Nat}
    {queue more : List (WaitingMember T)} (picked : (search flags member moment queue).picked = candidate :: more) :
    more = [] ∧ ¬Apart candidate member ∧ ∃ front back read, queue = front ++ candidate :: back ∧ moment ≤ read ∧
      isDead flags read candidate = false ∧ ∀ w ∈ front, isDead flags read w = true ∨ Apart w member := by
  induction queue generalizing moment with
  | nil => simp [search] at picked
  | cons w rest ih =>
    rw [search] at picked
    split at picked
    · rename_i dead
      obtain ⟨single,pairs,front,back,read,same,after,live,older⟩ := ih picked
      refine ⟨single,pairs,w :: front,back,read,by rw [same]; rfl,by omega,live,?_⟩
      intro x mem
      rcases List.mem_cons.mp mem with rfl | later
      · exact .inl (stillDead sticky (by omega) dead)
      · exact older x later
    · rename_i live
      split at picked
      · rename_i pairs
        obtain ⟨rfl,rfl⟩ := List.cons.inj picked
        exact ⟨rfl,notApart.mp pairs,[],rest,moment,rfl,Nat.le_refl _,by simpa using live,by simp⟩
      · rename_i apart
        obtain ⟨single,pairs,front,back,read,same,after,alive,older⟩ := ih picked
        refine ⟨single,pairs,w :: front,back,read,by rw [same]; rfl,by omega,alive,?_⟩
        intro x mem
        rcases List.mem_cons.mp mem with rfl | later
        · by_cases stays : Apart x member
          · exact .inr stays
          · exact absurd (notApart.mpr stays) apart
        · exact older x later

end Passes

section Queues
variable {T : Type}

/- What holds of the queue of a channel between calls, apart from its not being empty. -/
structure Tidy (channel : ChannelId) (queue : List (WaitingMember T)) : Prop where
  here : ∀ w ∈ queue, w.channel = channel
  capped : ∀ holder, queue.countP (fun w => w.holder = holder) ≤ parksPerMember
  apart : queue.Pairwise Apart

theorem tidyNil (channel : ChannelId) : Tidy channel ([] : List (WaitingMember T)) :=
  ⟨by simp,fun _ => Nat.zero_le _,.nil⟩

theorem Tidy.sublist {channel : ChannelId} {queue fewer : List (WaitingMember T)} (tidy : Tidy channel queue)
    (sub : fewer.Sublist queue) : Tidy channel fewer where
  here w mem := tidy.here w (sub.subset mem)
  capped holder := Nat.le_trans sub.countP_le (tidy.capped holder)
  apart := tidy.apart.sublist sub

/- A park joins behind members it does not pair with, and its holder keeps to the cap. -/
theorem Tidy.join {queue fewer : List (WaitingMember T)} {member : WaitingMember T} (tidy : Tidy member.channel queue)
    (apart : ∀ w ∈ queue, Apart w member) (sub : fewer.Sublist (queue ++ [member]))
    (room : fewer.countP (fun w => w.holder = member.holder) ≤ parksPerMember) : Tidy member.channel fewer := by
  refine ⟨?_,?_,?_⟩
  · intro w mem
    rcases List.mem_append.mp (sub.subset mem) with old | new
    · exact tidy.here w old
    · rw [List.mem_singleton.mp new]
  · intro holder
    by_cases own : holder = member.holder
    · rw [own]
      exact room
    · have other : ¬member.holder = holder := fun same => own same.symm
      have counts := sub.countP_le (p := fun w => w.holder = holder)
      rw [List.countP_append, List.countP_singleton, if_neg (by simpa using other)] at counts
      exact Nat.le_trans counts (tidy.capped holder)
  · have all : (queue ++ [member]).Pairwise Apart := by
      refine List.pairwise_append.mpr ⟨tidy.apart,List.pairwise_singleton _ _,?_⟩
      intro w old x new
      rw [List.mem_singleton.mp new]
      exact apart w old
    exact all.sublist sub

/- The first member of a kind taken out of a list. -/
theorem firstTaken {p : WaitingMember T → Bool} {queue : List (WaitingMember T)} {first : WaitingMember T}
    (found : queue.find? p = some first) :
    queue.Perm (first :: queue.eraseP p) ∧ queue.countP p = (queue.eraseP p).countP p + 1 := by
  obtain ⟨holds,front,back,same,none⟩ := List.find?_eq_some_iff_append.mp found
  have erased : queue.eraseP p = front ++ back := by
    rw [same, List.eraseP_append_right _ (by simpa using none), List.eraseP_cons_of_pos holds]
  rw [erased, same]
  refine ⟨List.perm_middle,?_⟩
  simp only [List.countP_append, List.countP_cons, holds, if_true]
  omega

theorem bothOut {queue kept gone : List (WaitingMember T)} {candidate : WaitingMember T} {member : WaitingMember T}
    (accounts : queue.Perm (kept ++ ([candidate] ++ gone))) :
    (queue ++ [member]).Perm (kept ++ ([candidate,member] ++ gone)) := by
  have last : ([candidate] ++ gone ++ [member]).Perm ([candidate,member] ++ gone) :=
    (List.perm_append_singleton member gone).cons candidate
  refine (accounts.append_right [member]).trans ?_
  rw [List.append_assoc]
  exact last.append_left kept

theorem memberIn {queue kept own gone ownGone : List (WaitingMember T)} (accounts : queue.Perm (kept ++ ([] ++ gone)))
    (purged : kept.Perm (own ++ ([] ++ ownGone))) (member : WaitingMember T) :
    (queue ++ [member]).Perm (own ++ [member] ++ (gone ++ ownGone)) := by
  rw [← Multiset.coe_eq_coe] at accounts purged ⊢
  simp only [← Multiset.coe_add, List.nil_append] at accounts purged ⊢
  rw [accounts, purged]
  abel

/- One part of a whole is worked on: with what comes in, it leaves what is kept and what goes out. -/
theorem exchange {whole part rest new kept out after : List (WaitingMember T)} (before : whole.Perm (part ++ rest))
    (work : (part ++ new).Perm (kept ++ out)) (left : after.Perm (kept ++ rest)) :
    (whole ++ new).Perm (after ++ out) := by
  rw [← Multiset.coe_eq_coe] at before work left ⊢
  simp only [← Multiset.coe_add] at before work left ⊢
  rw [before, left, add_right_comm, work]
  exact add_right_comm _ _ _

theorem outTogether {came before after out gone new out' gone' : List (WaitingMember T)}
    (first : came.Perm (before ++ (out ++ gone))) (step : (before ++ new).Perm (after ++ (out' ++ gone'))) :
    (came ++ new).Perm (after ++ (out ++ out' ++ (gone ++ gone'))) := by
  rw [← Multiset.coe_eq_coe] at first step ⊢
  simp only [← Multiset.coe_add] at first step ⊢
  rw [first, add_right_comm, step]
  abel

end Queues

namespace ChannelPairer
variable {T : Type} {flags : Flags}

/- Every queue in the map is tidy and none is empty. -/
def Orderly (s : ChannelPairer T) : Prop :=
  ∀ channel queue, s.waiting[channel]? = some queue → queue ≠ [] ∧ Tidy channel queue

theorem orderlyNew : Orderly (new : ChannelPairer T) := by
  intro channel queue found
  simp [new] at found

theorem Orderly.queueAt {s : ChannelPairer T} (orderly : s.Orderly) (channel : ChannelId) :
    Tidy channel (queueAt s.waiting channel) := by
  unfold OrderedMap.queueAt
  cases found : s.waiting[channel]? with
  | none => exact tidyNil channel
  | some queue => exact (orderly channel queue found).2

theorem Orderly.putQueue {s : ChannelPairer T} (orderly : s.Orderly) {channel : ChannelId}
    {queue : List (WaitingMember T)} (tidy : Tidy channel queue) : (s.putQueue channel queue).Orderly := by
  intro other found lookup
  unfold ChannelPairer.putQueue at lookup
  split at lookup
  · rw [lookupErase] at lookup
    split at lookup
    · contradiction
    · exact orderly other found lookup
  · rename_i filled
    rw [lookupInsert] at lookup
    split at lookup
    · rename_i same
      cases Option.some.inj lookup
      exact ⟨by simpa using filled,same ▸ tidy⟩
    · exact orderly other found lookup

theorem contentsPut (s : ChannelPairer T) (channel : ChannelId) (queue : List (WaitingMember T)) :
    (contents (s.putQueue channel queue).waiting).Perm (queue ++ contents (s.waiting.erase channel)) := by
  unfold ChannelPairer.putQueue
  split
  · rename_i empty
    rw [List.isEmpty_iff.mp empty]
    exact .refl _
  · exact contentsInsert s.waiting channel queue

/- What an offer does, by the outcome of its search. -/
theorem offerCases (flags : Flags) (s : ChannelPairer T) (moment : Nat) (member : WaitingMember T) :
    let queue := queueAt s.waiting member.channel
    let found := search flags member moment queue
    let own := purge flags member.holder found.moment found.kept
    let gone := found.dropped ++ own.dropped
    (∃ candidate more, found.picked = candidate :: more ∧ s.offer flags moment member =
      ⟨.paired candidate member,found.dropped,found.moment,
        (s.countDropped found.dropped).putQueue member.channel found.kept⟩) ∨
    (found.picked = [] ∧
      (own.kept ++ [member]).countP (fun w => w.holder = member.holder) ≤ parksPerMember ∧
      s.offer flags moment member =
        ⟨.parked,gone,own.moment,(s.countDropped gone).putQueue member.channel (own.kept ++ [member])⟩) ∨
    (found.picked = [] ∧
      ∃ stale, (own.kept ++ [member]).find? (fun w => w.holder = member.holder) = some stale ∧
      s.offer flags moment member = ⟨.superseded stale,gone,own.moment,
        (s.countDropped gone).putQueue member.channel
          ((own.kept ++ [member]).eraseP fun w => w.holder = member.holder)⟩) := by
  intro queue found own gone
  cases picked : found.picked with
  | cons candidate more =>
    refine .inl ⟨candidate,more,rfl,?_⟩
    simp only [offer, found, queue] at picked ⊢
    rw [picked]
  | nil =>
    have alone := picked
    simp only [found, queue] at alone
    by_cases many : (own.kept ++ [member]).countP (fun w => w.holder = member.holder) > parksPerMember
    · have there : ∃ stale, (own.kept ++ [member]).find? (fun w => w.holder = member.holder) = some stale := by
        refine Option.isSome_iff_exists.mp (List.find?_isSome.mpr ⟨member,by simp,by simp⟩)
      obtain ⟨stale,oldest⟩ := there
      refine .inr (.inr ⟨rfl,stale,oldest,?_⟩)
      simp only [own, found, queue] at many oldest
      simp only [offer, alone, if_pos many, oldest]
      rfl
    · refine .inr (.inl ⟨rfl,Nat.not_lt.mp many,?_⟩)
      simp only [own, found, queue] at many
      simp only [offer, alone, if_neg many]
      rfl

theorem offerSpec (sticky : Sticky flags) {s : ChannelPairer T} (moment : Nat) {member : WaitingMember T}
    (tidy : Tidy member.channel (queueAt s.waiting member.channel)) :
    ∃ kept, (s.offer flags moment member).pairer =
        (s.countDropped (s.offer flags moment member).dropped).putQueue member.channel kept ∧
      Tidy member.channel kept ∧
      (queueAt s.waiting member.channel ++ [member]).Perm (kept ++
        ((Reply.outcome (s.offer flags moment member).outcome).returned ++ (s.offer flags moment member).dropped)) := by
  have splits := searchSplits flags member moment (queueAt s.waiting member.channel)
  rcases offerCases flags s moment member with
    ⟨candidate,more,picked,done⟩ | ⟨alone,room,done⟩ | ⟨alone,stale,oldest,done⟩
  · rw [done]
    refine ⟨_,rfl,tidy.sublist splits.ordered,?_⟩
    have accounts := splits.accounts
    rw [picked, (searchPicked sticky picked).1] at accounts
    exact bothOut accounts
  all_goals
    have purged := purgeSplits flags member.holder
      (search flags member moment (queueAt s.waiting member.channel)).moment
      (search flags member moment (queueAt s.waiting member.channel)).kept
    have nobody := purgePicked flags member.holder
      (search flags member moment (queueAt s.waiting member.channel)).moment
      (search flags member moment (queueAt s.waiting member.channel)).kept
    have tidyOwn := tidy.sublist (purged.ordered.trans splits.ordered)
    have apart : ∀ w ∈ (purge flags member.holder _ _).kept, Apart w member :=
      fun w mem => searchKept alone w (purged.ordered.subset mem)
    have joined := memberIn (alone ▸ splits.accounts) (nobody ▸ purged.accounts) member
    rw [done]
  · exact ⟨_,rfl,tidyOwn.join apart (List.Sublist.refl _) room,joined⟩
  · obtain ⟨taken,count⟩ := firstTaken oldest
    refine ⟨_,rfl,tidyOwn.join apart (List.eraseP_sublist) ?_,?_⟩
    · have own := tidyOwn.capped member.holder
      rw [List.countP_append, List.countP_singleton, if_pos (by simp)] at count
      omega
    · exact joined.trans ((taken.append_right _).trans List.perm_middle.symm)

theorem countAppend (s : ChannelPairer T) (first later : List (WaitingMember T)) :
    (s.countDropped (first ++ later)).deadDropped = s.deadDropped + .ofNat first.length + .ofNat later.length := by
  rw [countDropped, List.length_append, UInt64.ofNat_add, UInt64.add_assoc]

theorem drainSpec (flags : Flags) {s : ChannelPairer T} (orderly : s.Orderly) (now : UnixSeconds) (order : List ChannelId)
    (moment : Nat) :
    let answer := drainExpired flags now order s moment
    answer.pairer.Orderly ∧
      (contents s.waiting).Perm (contents answer.pairer.waiting ++ (answer.drained ++ answer.dropped)) ∧
      answer.pairer.deadDropped = s.deadDropped + .ofNat answer.dropped.length := by
  induction order generalizing s moment with
  | nil => exact ⟨orderly,by simp [drainExpired],by simp [drainExpired]⟩
  | cons channel order ih =>
    intro answer
    let swept := sweep flags now moment (queueAt s.waiting channel)
    have splits : swept.Splits (queueAt s.waiting channel) := sweepSplits flags now moment _
    have work : (queueAt s.waiting channel ++ []).Perm (swept.kept ++ (swept.picked ++ swept.dropped)) := by
      rw [List.append_nil]
      exact splits.accounts
    let mid := (s.countDropped swept.dropped).putQueue channel swept.kept
    let rest := drainExpired flags now order mid swept.moment
    have tidy := (orderly.queueAt channel).sublist splits.ordered
    have next : mid.Orderly := Orderly.putQueue (s := s.countDropped swept.dropped) orderly tidy
    obtain ⟨kept,accounts,count⟩ := ih next swept.moment
    refine ⟨kept,?_,count.trans (countAppend s _ _).symm⟩
    have first := exchange (contentsSplit s.waiting channel) work (contentsPut (s.countDropped swept.dropped) channel _)
    have later : (contents mid.waiting ++ []).Perm (contents rest.pairer.waiting ++ (rest.drained ++ rest.dropped)) := by
      rw [List.append_nil]
      exact accounts
    rw [List.append_nil] at first
    have all := outTogether first later
    rwa [List.append_nil] at all

end ChannelPairer

namespace Broker
variable {T : Type} {flags : Flags}

/- What one call does to the books. -/
theorem callAccounts (sticky : Sticky flags) {s : Broker T} (orderly : s.pairer.Orderly) (call : Call T) :
    let answer := s.call flags call
    answer.2.pairer.Orderly ∧
      (contents s.pairer.waiting ++ call.offered).Perm
        (contents answer.2.pairer.waiting ++ (answer.1.1.returned ++ answer.1.2)) ∧
      ((answer.1.1.takenCount = [] ∧ answer.2.pairer.deadDropped = s.pairer.deadDropped + .ofNat answer.1.2.length) ∨
        (answer.1.1.takenCount = [s.pairer.deadDropped] ∧ answer.2.pairer.deadDropped = 0 ∧ answer.1.2 = [])) := by
  cases call with
  | offer member =>
    have tidy := orderly.queueAt member.channel
    obtain ⟨kept,after,neat,accounts⟩ := ChannelPairer.offerSpec sticky s.moment tidy
    refine ⟨?_,?_,?_⟩
    · change (s.pairer.offer flags s.moment member).pairer.Orderly
      rw [after]
      exact ChannelPairer.Orderly.putQueue (s := s.pairer.countDropped _) orderly neat
    · change (contents s.pairer.waiting ++ [member]).Perm
        (contents (s.pairer.offer flags s.moment member).pairer.waiting ++ _)
      rw [after]
      exact exchange (contentsSplit s.pairer.waiting member.channel) accounts (ChannelPairer.contentsPut _ _ _)
    · refine .inl ⟨rfl,?_⟩
      change (s.pairer.offer flags s.moment member).pairer.deadDropped = _
      rw [after]
      rfl
  | drainExpired now order =>
    obtain ⟨neat,accounts,count⟩ := ChannelPairer.drainSpec flags orderly now order s.moment
    refine ⟨neat,?_,.inl ⟨rfl,count⟩⟩
    rw [Call.offered, List.append_nil]
    exact accounts
  | takeDeadDropped =>
    refine ⟨orderly,?_,.inr ⟨rfl,rfl,rfl⟩⟩
    simp [Call.offered, Broker.call, Reply.returned, ChannelPairer.takeDeadDropped]

theorem runOrderly (sticky : Sticky flags) (calls : List (Call T)) : (run flags calls).pairer.Orderly :=
  Machine.runInvariant (fun s : Broker T => s.pairer.Orderly) (fun _ call orderly => (callAccounts sticky orderly call).1)
    ChannelPairer.orderlyNew calls

/- Taken or still on the counter, the count of the dropped comes out right modulo its width,
and exactly as long as it fits. -/
theorem countStep {taken : List UInt64} {before after : UInt64} {count : List UInt64} {total fresh : Nat}
    (sum : taken.sum + before = .ofNat total)
    (step : (count = [] ∧ after = before + .ofNat fresh) ∨ (count = [before] ∧ after = 0 ∧ fresh = 0)) :
    (taken ++ count).sum + after = .ofNat (total + fresh) := by
  rw [UInt64.ofNat_add, ← sum, List.sum_append]
  rcases step with ⟨none,added⟩ | ⟨all,reset,nothing⟩
  · rw [none, added, List.sum_nil, UInt64.add_zero, UInt64.add_assoc]
  · rw [all, reset, nothing]
    simp

theorem exactStep {taken : List UInt64} {before after : UInt64} {count : List UInt64} {total fresh : Nat}
    (sum : (taken.map UInt64.toNat).sum + before.toNat = total) (fits : total + fresh < 2 ^ 64)
    (step : (count = [] ∧ after = before + .ofNat fresh) ∨ (count = [before] ∧ after = 0 ∧ fresh = 0)) :
    ((taken ++ count).map UInt64.toNat).sum + after.toNat = total + fresh := by
  rw [List.map_append, List.sum_append]
  rcases step with ⟨none,added⟩ | ⟨all,reset,nothing⟩
  · have small : (UInt64.ofNat fresh).toNat = fresh := UInt64.toNat_ofNat_of_lt' (show fresh < 2 ^ 64 by omega)
    have whole : (before + .ofNat fresh).toNat = before.toNat + fresh := by
      rw [UInt64.toNat_add, small, Nat.mod_eq_of_lt (by omega)]
    rw [none, added, whole]
    simp only [List.map_nil, List.sum_nil]
    omega
  · rw [all, reset, nothing]
    simp only [List.map_cons, List.map_nil, List.sum_cons, List.sum_nil, UInt64.toNat_zero]
    omega

theorem historyNext (flags : Flags) (calls : List (Call T)) (call : Call T) :
    let answer := (run flags calls).call flags call
    run flags (calls ++ [call]) = answer.2 ∧ offered (calls ++ [call]) = offered calls ++ call.offered ∧
      returned flags (calls ++ [call]) = returned flags calls ++ answer.1.1.returned ∧
      dropped flags (calls ++ [call]) = dropped flags calls ++ answer.1.2 ∧
      taken flags (calls ++ [call]) = taken flags calls ++ answer.1.1.takenCount := by
  intro answer
  refine ⟨Machine.runNext _ calls call,?_,Machine.logNext _ _ calls call,Machine.logNext _ _ calls call,
    Machine.logNext _ _ calls call⟩
  rw [offered, List.flatMap_append, List.flatMap_singleton]
  rfl

theorem runAccounts (sticky : Sticky flags) (calls : List (Call T)) :
    (offered calls).Perm (contents (run flags calls).pairer.waiting ++ (returned flags calls ++ dropped flags calls)) ∧
      (taken flags calls).sum + (run flags calls).pairer.deadDropped = .ofNat (dropped flags calls).length ∧
      ((dropped flags calls).length < 2 ^ 64 → ((taken flags calls).map UInt64.toNat).sum +
        (run flags calls).pairer.deadDropped.toNat = (dropped flags calls).length) := by
  induction calls using List.reverseRecOn with
  | nil =>
    refine ⟨?_,rfl,fun _ => rfl⟩
    simp [offered, run, Machine.run, new, ChannelPairer.new, contentsEmpty, returned, dropped, Machine.log]
  | append_singleton calls call ih =>
    obtain ⟨accounts,count,exactly⟩ := ih
    obtain ⟨_,step,counted⟩ := callAccounts sticky (runOrderly sticky calls) call
    obtain ⟨next,came,out,gone,took⟩ := historyNext flags calls call
    have tally := counted.imp_right (And.imp_right (And.imp_right fun empty => congrArg List.length empty))
    rw [next, came, out, gone, took, List.length_append]
    exact ⟨outTogether accounts step,countStep count tally,
      fun fits => exactStep (exactly (by omega)) fits tally⟩

/- The partner an offer finds. -/
theorem pairedSpec (sticky : Sticky flags) {s : ChannelPairer T} (orderly : s.Orderly) {moment : Nat}
    {member candidate other : WaitingMember T}
    (paired : (s.offer flags moment member).outcome = .paired candidate other) :
    other = member ∧ candidate.channel = member.channel ∧ ¬Apart candidate member ∧
      ∃ front back read, queueAt s.waiting member.channel = front ++ candidate :: back ∧ moment ≤ read ∧
        isDead flags read candidate = false ∧ ∀ w ∈ front, isDead flags read w = true ∨ Apart w member := by
  rcases ChannelPairer.offerCases flags s moment member with
    ⟨found,more,picked,done⟩ | ⟨_,_,done⟩ | ⟨_,_,_,done⟩
  · rw [done] at paired
    obtain ⟨rfl,rfl⟩ := PairOutcome.paired.inj paired
    obtain ⟨_,pairs,front,back,read,same,after,live,older⟩ := searchPicked sticky picked
    have mem : found ∈ queueAt s.waiting member.channel := by
      rw [same]
      exact List.mem_append_right _ List.mem_cons_self
    exact ⟨rfl,(orderly.queueAt member.channel).here found mem,pairs,front,back,read,same,after,live,older⟩
  · rw [done] at paired
    contradiction
  · rw [done] at paired
    contradiction

theorem everyParkAccounted (flags : Flags) (sticky : Sticky flags) (calls : List (Call T)) :
    let s := run flags calls
    ((offered calls).Perm (contents s.pairer.waiting ++ (returned flags calls ++ dropped flags calls)) ∧
      (taken flags calls).sum + s.pairer.deadDropped = .ofNat (dropped flags calls).length ∧
      ((dropped flags calls).length < 2 ^ 64 → ((taken flags calls).map UInt64.toNat).sum +
        s.pairer.deadDropped.toNat = (dropped flags calls).length)) ∧
    (∀ member candidate other, (s.pairer.offer flags s.moment member).outcome = .paired candidate other →
      other = member ∧ candidate.channel = member.channel ∧ candidate.holder ≠ member.holder ∧
      candidate.phase.compatible member.phase = true ∧
      ∃ front back read, queueAt s.pairer.waiting member.channel = front ++ candidate :: back ∧ s.moment ≤ read ∧
        isDead flags read candidate = false ∧ ∀ w ∈ front, isDead flags read w = true ∨
          w.holder = member.holder ∨ w.phase.compatible member.phase = false) ∧
    ∀ (channel : ChannelId) (queue : List (WaitingMember T)), s.pairer.waiting[channel]? = some queue → queue ≠ [] ∧
      (∀ holder, queue.countP (fun w => w.holder = holder) ≤ parksPerMember) ∧
      queue.Pairwise (fun x y => x.holder = y.holder ∨ x.phase.compatible y.phase = false) := by
  intro s
  have orderly : s.pairer.Orderly := runOrderly sticky calls
  refine ⟨runAccounts sticky calls,?_,?_⟩
  · intro member candidate other paired
    obtain ⟨same,channel,pairs,oldest⟩ := pairedSpec sticky orderly paired
    obtain ⟨holders,phases⟩ := not_or.mp pairs
    exact ⟨same,channel,holders,by simpa using phases,oldest⟩
  · intro channel queue found
    obtain ⟨filled,tidy⟩ := orderly channel queue found
    exact ⟨filled,tidy.capped,tidy.apart⟩

def park (holder : UInt8) (liveness : ParkLiveness) (payload : Nat) : WaitingMember Nat :=
  { channel := .replicate 32 0, holder := .replicate 32 holder, deadline := 100, liveness := liveness,
    phase := .unmarked, payload := payload }

/- The oldest park has died by the time its partner comes, so the partner gets the next one. -/
theorem deadParkPassedOver :
    let flags : Flags := fun moment _ => decide (1 < moment)
    let calls := [Call.offer (park 1 (some 0) 10),.offer (park 1 none 11),.offer (park 2 none 20)]
    Sticky flags ∧ returned flags calls = [park 1 none 11,park 2 none 20] ∧
      (offered calls).Perm (contents (run flags calls).pairer.waiting ++
        ([park 1 none 11,park 2 none 20] ++ [park 1 (some 0) 10])) := by
  intro flags calls
  have sticky : Sticky flags := by
    intro handle t t' later set
    simp only [flags, decide_eq_true_eq] at set ⊢
    omega
  have out : returned flags calls = [park 1 none 11,park 2 none 20] := by decide +kernel
  have gone : dropped flags calls = [park 1 (some 0) 10] := by decide +kernel
  have accounts := (everyParkAccounted flags sticky calls).1.1
  rw [out, gone] at accounts
  exact ⟨sticky,out,accounts⟩

end Broker
end CadsTunnel.Pairing
