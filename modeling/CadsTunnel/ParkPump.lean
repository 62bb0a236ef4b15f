import CadsTunnel.Words

/-! The pump between a parked client and its splice. Two loops run in one task, one for each
direction; the second also writes the keepalive, until the first chunk from the splice ends
the park. An event is the return of what one of the loops awaits, in any order, with the
reading of the clock in milliseconds. -/
namespace CadsTunnel.ParkPump
open Words

def parkHalfCloseLinger : Nat := 300 * 1000
def chunkSize : Nat := 16 * 1024

/- Where the loop from the client to the splice is. -/
inductive ClientToSplice where
  | reading
  | writing (rest : Bytes)
  | flushing
  | halfClosed
  | shutdown
  | done
  deriving DecidableEq

/- And the one from the splice to the client. -/
inductive SpliceToClient where
  | select
  | writing (rest : Bytes)
  | keepalive
  | flushing
  | shutdown
  | done
  deriving DecidableEq

def ClientToSplice.rest : ClientToSplice → Bytes
  | .writing rest => rest
  | _ => []

def SpliceToClient.rest : SpliceToClient → Bytes
  | .writing rest => rest
  | _ => []

structure Pump where
  keepalive : Bool
  dead : Bool := false
  parked : Bool := true
  unparked : Bool := false
  lastActiveMs : Nat := 0
  clientToSplice : ClientToSplice := .reading
  spliceToClient : SpliceToClient := .select
  linger : Option Nat := none
  finished : Bool := false
  -- What was written to the two sides, and whether their write halves were shut down.
  toSplice : Bytes := []
  toClient : Bytes := []
  spliceShut : Bool := false
  clientShut : Bool := false
  deriving DecidableEq

inductive Event where
  | clientRead (chunk : Bytes)
  | clientReadFailed
  | spliceWrote (count : Nat)
  | spliceWriteFailed
  | spliceFlushed
  | notified
  | spliceShutdown
  | spliceRead (chunk : Bytes)
  | spliceReadFailed
  | tick
  | keepaliveWrote
  | keepaliveFailed
  | clientWrote (count : Nat)
  | clientWriteFailed
  | clientFlushed
  | clientShutdown
  | linger
  deriving DecidableEq

namespace Pump

def touch (s : Pump) (now : Nat) : Pump := { s with lastActiveMs := now }

/- Out of the loop over both directions: the client is shut down and everything is dropped. -/
def leave (s : Pump) : Pump := { s with finished := true, clientShut := true }

def armLinger (s : Pump) (now : Nat) : Pump :=
  if s.linger.isSome then s else { s.touch now with linger := some (now + parkHalfCloseLinger) }

def clientToSpliceEnds (s : Pump) (aborted : Bool) (now : Nat) : Pump :=
  let s := { s with clientToSplice := .done }
  if aborted || s.spliceToClient == .done then s.leave else s.armLinger now

def spliceToClientEnds (s : Pump) (failed : Bool) (now : Nat) : Pump :=
  let s := { s with spliceToClient := .done }
  if failed || s.clientToSplice == .done then s.leave else s.armLinger now

/- The wait for the end of the park, which goes back to sleep as long as it lasts. -/
def passHalfClose (s : Pump) : Pump :=
  if s.parked then { s with clientToSplice := .halfClosed } else { s with clientToSplice := .shutdown, spliceShut := true }

/- An empty chunk is the end of the stream. -/
def clientRead (s : Pump) (chunk : Bytes) (now : Nat) : Option Pump :=
  if s.clientToSplice = .reading ∧ chunk.length ≤ chunkSize then
    if chunk.isEmpty then
      if s.keepalive && s.parked then some ({ s with dead := true }.clientToSpliceEnds true now)
      else some s.passHalfClose
    else some { s.touch now with clientToSplice := .writing chunk }
  else none

def clientReadFailed (s : Pump) (now : Nat) : Option Pump :=
  if s.clientToSplice = .reading then
    let s := if s.parked then { s with dead := true } else s
    some (s.clientToSpliceEnds true now)
  else none

def spliceWrote (s : Pump) (count : Nat) : Option Pump :=
  match s.clientToSplice with
  | .writing rest =>
    if 0 < count ∧ count ≤ rest.length then
      some { s with
        toSplice := s.toSplice ++ rest.take count
        clientToSplice := if count = rest.length then .flushing else .writing (rest.drop count) }
    else none
  | _ => none

def spliceWriteFailed (s : Pump) (now : Nat) : Option Pump :=
  match s.clientToSplice with
  | .writing _ => some (s.clientToSpliceEnds true now)
  | _ => none

def spliceFlushed (s : Pump) : Option Pump :=
  if s.clientToSplice = .flushing then some { s with clientToSplice := .reading } else none

def notified (s : Pump) : Option Pump :=
  if s.clientToSplice = .halfClosed ∧ s.unparked then some { s with unparked := false }.passHalfClose else none

def spliceShutdown (s : Pump) (now : Nat) : Option Pump :=
  if s.clientToSplice = .shutdown then some (s.clientToSpliceEnds false now) else none

def spliceRead (s : Pump) (chunk : Bytes) (now : Nat) : Option Pump :=
  if s.spliceToClient = .select ∧ chunk.length ≤ chunkSize then
    if chunk.isEmpty then
      if s.parked then some (s.spliceToClientEnds true now)
      else some { s with spliceToClient := .shutdown, clientShut := true }
    else some { s.touch now with parked := false, unparked := s.unparked || s.parked, spliceToClient := .writing chunk }
  else none

def spliceReadFailed (s : Pump) (now : Nat) : Option Pump :=
  if s.spliceToClient = .select then some (s.spliceToClientEnds true now) else none

def tick (s : Pump) : Option Pump :=
  if s.spliceToClient = .select ∧ s.parked ∧ s.keepalive then some { s with spliceToClient := .keepalive } else none

def keepaliveWrote (s : Pump) : Option Pump :=
  if s.spliceToClient = .keepalive then some { s with toClient := s.toClient ++ [0], spliceToClient := .flushing } else none

def keepaliveFailed (s : Pump) (now : Nat) : Option Pump :=
  if s.spliceToClient = .keepalive then some ({ s with dead := true }.spliceToClientEnds true now) else none

def clientWrote (s : Pump) (count : Nat) : Option Pump :=
  match s.spliceToClient with
  | .writing rest =>
    if 0 < count ∧ count ≤ rest.length then
      some { s with
        toClient := s.toClient ++ rest.take count
        spliceToClient := if count = rest.length then .flushing else .writing (rest.drop count) }
    else none
  | _ => none

def clientWriteFailed (s : Pump) (now : Nat) : Option Pump :=
  match s.spliceToClient with
  | .writing _ => some (s.spliceToClientEnds true now)
  | _ => none

def clientFlushed (s : Pump) : Option Pump :=
  if s.spliceToClient = .flushing then some { s with spliceToClient := .select } else none

def clientShutdown (s : Pump) (now : Nat) : Option Pump :=
  if s.spliceToClient = .shutdown then some (s.spliceToClientEnds false now) else none

def lingerElapsed (s : Pump) (now : Nat) : Option Pump :=
  if s.linger.any (fun deadline => deadline ≤ now) then
    let deadline := s.lastActiveMs + parkHalfCloseLinger
    some (if deadline ≤ now then s.leave else { s with linger := some deadline })
  else none

def step (s : Pump) (now : Nat) (event : Event) : Option Pump :=
  if s.finished then none
  else
    match event with
    | .clientRead chunk => s.clientRead chunk now
    | .clientReadFailed => s.clientReadFailed now
    | .spliceWrote count => s.spliceWrote count
    | .spliceWriteFailed => s.spliceWriteFailed now
    | .spliceFlushed => s.spliceFlushed
    | .notified => s.notified
    | .spliceShutdown => s.spliceShutdown now
    | .spliceRead chunk => s.spliceRead chunk now
    | .spliceReadFailed => s.spliceReadFailed now
    | .tick => s.tick
    | .keepaliveWrote => s.keepaliveWrote
    | .keepaliveFailed => s.keepaliveFailed now
    | .clientWrote count => s.clientWrote count
    | .clientWriteFailed => s.clientWriteFailed now
    | .clientFlushed => s.clientFlushed
    | .clientShutdown => s.clientShutdown now
    | .linger => s.lingerElapsed now

section Ends
variable (s : Pump) (failed : Bool) (now : Nat)

/- The end of a loop drops what it had still to write and touches nothing else. -/
structure Ended (s s' : Pump) : Prop where
  keepalive : s'.keepalive = s.keepalive
  parked : s'.parked = s.parked
  toSplice : s'.toSplice = s.toSplice
  toClient : s'.toClient = s.toClient
  spliceShut : s'.spliceShut = s.spliceShut

theorem armKept : Ended s (s.armLinger now) ∧ (s.armLinger now).clientToSplice = s.clientToSplice ∧
    (s.armLinger now).spliceToClient = s.spliceToClient := by
  unfold armLinger
  split
  · exact ⟨⟨rfl,rfl,rfl,rfl,rfl⟩,rfl,rfl⟩
  · exact ⟨⟨rfl,rfl,rfl,rfl,rfl⟩,rfl,rfl⟩

theorem clientToSpliceEnded : Ended s (s.clientToSpliceEnds failed now) ∧ (s.clientToSpliceEnds failed now).clientToSplice = .done ∧
    (s.clientToSpliceEnds failed now).spliceToClient = s.spliceToClient ∧
    (failed = true → (s.clientToSpliceEnds failed now).finished = true) := by
  unfold clientToSpliceEnds
  cases failed with
  | true => exact ⟨⟨rfl,rfl,rfl,rfl,rfl⟩,rfl,rfl,fun _ => rfl⟩
  | false =>
    simp only [Bool.false_or]
    split
    · exact ⟨⟨rfl,rfl,rfl,rfl,rfl⟩,rfl,rfl,nofun⟩
    · obtain ⟨kept,first,second⟩ := armKept { s with clientToSplice := .done } now
      exact ⟨⟨kept.1,kept.2,kept.3,kept.4,kept.5⟩,first,second,nofun⟩

theorem spliceToClientEnded : Ended s (s.spliceToClientEnds failed now) ∧ (s.spliceToClientEnds failed now).spliceToClient = .done ∧
    (s.spliceToClientEnds failed now).clientToSplice = s.clientToSplice ∧
    (failed = true → (s.spliceToClientEnds failed now).finished = true) := by
  unfold spliceToClientEnds
  cases failed with
  | true => exact ⟨⟨rfl,rfl,rfl,rfl,rfl⟩,rfl,rfl,fun _ => rfl⟩
  | false =>
    simp only [Bool.false_or]
    split
    · exact ⟨⟨rfl,rfl,rfl,rfl,rfl⟩,rfl,rfl,nofun⟩
    · obtain ⟨kept,first,second⟩ := armKept { s with spliceToClient := .done } now
      exact ⟨⟨kept.1,kept.2,kept.3,kept.4,kept.5⟩,second,first,nofun⟩

end Ends

/- What a step of the first loop does, with the chunk it has read. -/
structure Forward (s s' : Pump) (chunk : Bytes) : Prop where
  bytes : ∃ lost, s.toSplice ++ s.clientToSplice.rest ++ chunk = s'.toSplice ++ s'.clientToSplice.rest ++ lost ∧
    (s'.finished = false → lost = [])
  toClient : s'.toClient = s.toClient
  spliceToClient : s'.spliceToClient = s.spliceToClient
  parked : s'.parked = s.parked
  keepalive : s'.keepalive = s.keepalive
  shut : s'.spliceShut = true → s.spliceShut = true ∨ s.parked = false

section FirstLoop
variable {s s' : Pump} {now : Nat}

/- A step to where nothing is left to write. -/
theorem forwardEnded {m : Pump} (ended : Ended s m) (same : m.spliceToClient = s.spliceToClient)
    (after : m.clientToSplice.rest = []) (drops : m.finished = false → s.clientToSplice.rest = []) : Forward s m [] := by
  refine ⟨⟨s.clientToSplice.rest,?_,drops⟩,ended.toClient,same,ended.parked,ended.keepalive,?_⟩
  · rw [ended.toSplice, after, List.append_nil, List.append_nil]
  · exact fun shut => .inl (ended.spliceShut ▸ shut)

theorem passKept (idle : s.clientToSplice.rest = []) : Forward s s.passHalfClose [] := by
  unfold passHalfClose
  by_cases parked : s.parked
  · rw [if_pos parked]
    exact ⟨⟨[],by rw [idle]; rfl,fun _ => rfl⟩,rfl,rfl,rfl,rfl,.inl⟩
  · rw [if_neg parked]
    exact ⟨⟨[],by rw [idle]; rfl,fun _ => rfl⟩,rfl,rfl,rfl,rfl,fun _ => .inr (by simpa using parked)⟩

theorem clientReadForward {chunk : Bytes} (stepped : s.clientRead chunk now = some s') : Forward s s' chunk := by
  unfold clientRead at stepped
  split at stepped <;> try contradiction
  rename_i ready
  have idle : s.clientToSplice.rest = [] := by rw [ready.1]; rfl
  by_cases closed : chunk.isEmpty
  · obtain rfl := List.isEmpty_iff.mp closed
    rw [if_pos closed] at stepped
    split at stepped
    · cases Option.some.inj stepped
      obtain ⟨ended,after,same,_⟩ := clientToSpliceEnded { s with dead := true } true now
      exact forwardEnded ⟨ended.1,ended.2,ended.3,ended.4,ended.5⟩ same (by rw [after]; rfl) (fun _ => idle)
    · cases Option.some.inj stepped
      exact passKept idle
  · rw [if_neg closed] at stepped
    cases Option.some.inj stepped
    exact ⟨⟨[],by rw [idle, List.append_nil, List.append_nil]; rfl,fun _ => rfl⟩,rfl,rfl,rfl,rfl,.inl⟩

theorem clientReadFailedForward (stepped : s.clientReadFailed now = some s') : Forward s s' [] := by
  unfold clientReadFailed at stepped
  split at stepped <;> try contradiction
  rename_i ready
  have idle : s.clientToSplice.rest = [] := by rw [ready]; rfl
  cases Option.some.inj stepped
  obtain ⟨ended,after,same,_⟩ := clientToSpliceEnded (if s.parked then { s with dead := true } else s) true now
  have kept : Ended s (if s.parked then { s with dead := true } else s) := by
    split
    · exact ⟨rfl,rfl,rfl,rfl,rfl⟩
    · exact ⟨rfl,rfl,rfl,rfl,rfl⟩
  have other : (if s.parked then { s with dead := true } else s).spliceToClient = s.spliceToClient := by split <;> rfl
  exact forwardEnded ⟨ended.1.trans kept.1,ended.2.trans kept.2,ended.3.trans kept.3,ended.4.trans kept.4,ended.5.trans kept.5⟩
    (same.trans other) (by rw [after]; rfl) (fun _ => idle)

theorem spliceWroteForward {count : Nat} (stepped : s.spliceWrote count = some s') : Forward s s' [] := by
  unfold spliceWrote at stepped
  split at stepped <;> try contradiction
  rename_i rest writing
  split at stepped <;> try contradiction
  cases Option.some.inj stepped
  have pending : s.clientToSplice.rest = rest := by rw [writing]; rfl
  have left : (if count = rest.length then ClientToSplice.flushing else .writing (rest.drop count)).rest = rest.drop count := by
    split
    case isTrue all => rw [all, List.drop_length]; rfl
    case isFalse => rfl
  refine ⟨⟨[],?_,fun _ => rfl⟩,rfl,rfl,rfl,rfl,.inl⟩
  simp only [pending, left, List.append_nil, List.append_assoc, List.take_append_drop]

theorem spliceWriteFailedForward (stepped : s.spliceWriteFailed now = some s') : Forward s s' [] := by
  unfold spliceWriteFailed at stepped
  split at stepped <;> try contradiction
  cases Option.some.inj stepped
  obtain ⟨ended,after,same,over'⟩ := clientToSpliceEnded s true now
  exact forwardEnded ended same (by rw [after]; rfl) (fun running => absurd (over' rfl) (by simp [running]))

theorem spliceFlushedForward (stepped : s.spliceFlushed = some s') : Forward s s' [] := by
  unfold spliceFlushed at stepped
  split at stepped <;> try contradiction
  rename_i flushing
  cases Option.some.inj stepped
  exact forwardEnded ⟨rfl,rfl,rfl,rfl,rfl⟩ rfl rfl (fun _ => by rw [flushing]; rfl)

theorem notifiedForward (stepped : s.notified = some s') : Forward s s' [] := by
  unfold notified at stepped
  split at stepped <;> try contradiction
  rename_i waiting
  cases Option.some.inj stepped
  have passed := passKept (s := { s with unparked := false }) (by rw [waiting.1]; rfl)
  exact ⟨passed.1,passed.2,passed.3,passed.4,passed.5,passed.6⟩

theorem spliceShutdownForward (stepped : s.spliceShutdown now = some s') : Forward s s' [] := by
  unfold spliceShutdown at stepped
  split at stepped <;> try contradiction
  rename_i closing
  cases Option.some.inj stepped
  obtain ⟨ended,after,same,_⟩ := clientToSpliceEnded s false now
  exact forwardEnded ended same (by rw [after]; rfl) (fun _ => by rw [closing]; rfl)

end FirstLoop

/- What a step of the second loop does, with the chunk it has read, and whether it has written a keepalive. -/
structure Back (s s' : Pump) (chunk : Bytes) (nul : Bool) : Prop where
  bytes : ∃ sent lost, s'.toClient = s.toClient ++ (if nul then [0] else []) ++ sent ∧
    s.spliceToClient.rest ++ chunk = sent ++ s'.spliceToClient.rest ++ lost ∧ (s'.finished = false → lost = [])
  toSplice : s'.toSplice = s.toSplice
  clientToSplice : s'.clientToSplice = s.clientToSplice
  parked : s'.parked = (s.parked && chunk.isEmpty)
  keepalive : s'.keepalive = s.keepalive
  spliceShut : s'.spliceShut = s.spliceShut
  ticks : s'.spliceToClient = .keepalive → chunk = [] ∧ (s.spliceToClient = .keepalive ∨ s.parked = true ∧ s.keepalive = true)
  ticked : nul = true → s.spliceToClient = .keepalive

section SecondLoop
variable {s s' : Pump} {now : Nat}

theorem backEnded {m : Pump} (ended : Ended s m) (same : m.clientToSplice = s.clientToSplice)
    (after : m.spliceToClient.rest = []) (ticks : m.spliceToClient = .keepalive → s.parked = true ∧ s.keepalive = true)
    (drops : m.finished = false → s.spliceToClient.rest = []) : Back s m [] false := by
  refine ⟨⟨[],s.spliceToClient.rest,?_,?_,drops⟩,ended.toSplice,same,?_,ended.keepalive,ended.spliceShut,fun at' => ⟨rfl,.inr (ticks at')⟩,nofun⟩
  · simpa using ended.toClient
  · rw [after, List.append_nil]
    rfl
  · simpa using ended.parked

theorem backFailed (failed : Bool) (drops : failed = false → s.spliceToClient.rest = []) :
    Back s (s.spliceToClientEnds failed now) [] false := by
  obtain ⟨ended,after,same,over'⟩ := spliceToClientEnded s failed now
  refine backEnded ended same (by rw [after]; rfl) (fun at' => by simp [after] at at') ?_
  intro running
  cases failed with
  | true => exact absurd (over' rfl) (by simp [running])
  | false => exact drops rfl

theorem spliceReadBack {chunk : Bytes} (stepped : s.spliceRead chunk now = some s') : Back s s' chunk false := by
  unfold spliceRead at stepped
  split at stepped <;> try contradiction
  rename_i ready
  have idle : s.spliceToClient.rest = [] := by rw [ready.1]; rfl
  by_cases closed : chunk.isEmpty
  · obtain rfl := List.isEmpty_iff.mp closed
    rw [if_pos closed] at stepped
    split at stepped
    · cases Option.some.inj stepped
      exact backFailed true (fun _ => idle)
    · cases Option.some.inj stepped
      exact backEnded ⟨rfl,rfl,rfl,rfl,rfl⟩ rfl rfl nofun (fun _ => idle)
  · rw [if_neg closed] at stepped
    cases Option.some.inj stepped
    refine ⟨⟨[],[],?_,?_,fun _ => rfl⟩,rfl,rfl,?_,rfl,rfl,nofun,nofun⟩
    · simp [touch]
    · rw [idle, List.append_nil]
      rfl
    · simp [Bool.eq_false_iff.mpr closed]

theorem spliceReadFailedBack (stepped : s.spliceReadFailed now = some s') : Back s s' [] false := by
  unfold spliceReadFailed at stepped
  split at stepped <;> try contradiction
  cases Option.some.inj stepped
  exact backFailed true nofun

theorem tickBack (stepped : s.tick = some s') : Back s s' [] false := by
  unfold tick at stepped
  split at stepped <;> try contradiction
  rename_i due
  cases Option.some.inj stepped
  exact backEnded ⟨rfl,rfl,rfl,rfl,rfl⟩ rfl rfl (fun _ => due.2) (fun _ => by rw [due.1]; rfl)

theorem keepaliveWroteBack (stepped : s.keepaliveWrote = some s') : Back s s' [] true := by
  unfold keepaliveWrote at stepped
  split at stepped <;> try contradiction
  rename_i ticking
  cases Option.some.inj stepped
  refine ⟨⟨[],[],by simp,by rw [ticking]; rfl,fun _ => rfl⟩,rfl,rfl,by simp,rfl,rfl,nofun,fun _ => ticking⟩

theorem keepaliveFailedBack (stepped : s.keepaliveFailed now = some s') : Back s s' [] false := by
  unfold keepaliveFailed at stepped
  split at stepped <;> try contradiction
  cases Option.some.inj stepped
  have failed : Back { s with dead := true } ({ s with dead := true }.spliceToClientEnds true now) [] false := backFailed true nofun
  exact ⟨failed.1,failed.2,failed.3,failed.4,failed.5,failed.6,failed.7,nofun⟩

theorem clientWroteBack {count : Nat} (stepped : s.clientWrote count = some s') : Back s s' [] false := by
  unfold clientWrote at stepped
  split at stepped <;> try contradiction
  rename_i rest writing
  split at stepped <;> try contradiction
  cases Option.some.inj stepped
  have pending : s.spliceToClient.rest = rest := by rw [writing]; rfl
  have left : (if count = rest.length then SpliceToClient.flushing else .writing (rest.drop count)).rest = rest.drop count := by
    split
    case isTrue all => rw [all, List.drop_length]; rfl
    case isFalse => rfl
  refine ⟨⟨rest.take count,[],by simp,?_,fun _ => rfl⟩,rfl,rfl,by simp,rfl,rfl,?_,nofun⟩
  · simp only [pending, left, List.append_nil, List.take_append_drop]
  · intro ticking
    dsimp only at ticking
    split at ticking <;> contradiction

theorem clientWriteFailedBack (stepped : s.clientWriteFailed now = some s') : Back s s' [] false := by
  unfold clientWriteFailed at stepped
  split at stepped <;> try contradiction
  cases Option.some.inj stepped
  exact backFailed true nofun

theorem clientFlushedBack (stepped : s.clientFlushed = some s') : Back s s' [] false := by
  unfold clientFlushed at stepped
  split at stepped <;> try contradiction
  rename_i flushing
  cases Option.some.inj stepped
  exact backEnded ⟨rfl,rfl,rfl,rfl,rfl⟩ rfl rfl nofun (fun _ => by rw [flushing]; rfl)

theorem clientShutdownBack (stepped : s.clientShutdown now = some s') : Back s s' [] false := by
  unfold clientShutdown at stepped
  split at stepped <;> try contradiction
  rename_i closing
  cases Option.some.inj stepped
  exact backFailed false (fun _ => by rw [closing]; rfl)

theorem lingerBack (stepped : s.lingerElapsed now = some s') : Back s s' [] false := by
  unfold lingerElapsed at stepped
  split at stepped <;> try contradiction
  simp only [Option.some.injEq] at stepped
  subst stepped
  have kept : ∀ m : Pump, Ended s m → m.clientToSplice = s.clientToSplice → m.spliceToClient = s.spliceToClient → Back s m [] false := by
    intro m ended first second
    refine ⟨⟨[],[],by simpa using ended.toClient,?_,fun _ => rfl⟩,ended.toSplice,first,by simpa using ended.parked,ended.keepalive,
      ended.spliceShut,fun ticking => ⟨rfl,.inl (second ▸ ticking)⟩,nofun⟩
    rw [second]
    rfl
  split
  · exact kept _ ⟨rfl,rfl,rfl,rfl,rfl⟩ rfl rfl
  · exact kept _ ⟨rfl,rfl,rfl,rfl,rfl⟩ rfl rfl

end SecondLoop

end Pump

/- What the events say of the two sides. -/
def Event.ofClient : Event → Bytes
  | .clientRead chunk => chunk
  | _ => []

def Event.ofSplice : Event → Bytes
  | .spliceRead chunk => chunk
  | _ => []

def clientBytes (events : List (Nat × Event)) : Bytes := events.flatMap (fun e => e.2.ofClient)
def spliceBytes (events : List (Nat × Event)) : Bytes := events.flatMap (fun e => e.2.ofSplice)
def keepalives (events : List (Nat × Event)) : Nat := events.countP (fun e => e.2 == .keepaliveWrote)

inductive Runs (keepalive : Bool) : List (Nat × Event) → Pump → Prop where
  | start : Runs keepalive [] { keepalive }
  | next {events : List (Nat × Event)} {s s' : Pump} {now : Nat} {event : Event} (before : Runs keepalive events s)
      (stepped : s.step now event = some s') : Runs keepalive (events ++ [(now,event)]) s'

/- A step belongs to one of the loops. -/
theorem stepCases {s s' : Pump} {now : Nat} {event : Event} (stepped : s.step now event = some s') :
    s.finished = false ∧
      (s.Forward s' event.ofClient ∧ event.ofSplice = [] ∧ event ≠ .keepaliveWrote ∨
        s.Back s' event.ofSplice (event == .keepaliveWrote) ∧ event.ofClient = []) := by
  unfold Pump.step at stepped
  split at stepped <;> try contradiction
  rename_i running
  refine ⟨by simpa using running,?_⟩
  cases event with
  | clientRead chunk => exact .inl ⟨Pump.clientReadForward stepped,rfl,nofun⟩
  | clientReadFailed => exact .inl ⟨Pump.clientReadFailedForward stepped,rfl,nofun⟩
  | spliceWrote count => exact .inl ⟨Pump.spliceWroteForward stepped,rfl,nofun⟩
  | spliceWriteFailed => exact .inl ⟨Pump.spliceWriteFailedForward stepped,rfl,nofun⟩
  | spliceFlushed => exact .inl ⟨Pump.spliceFlushedForward stepped,rfl,nofun⟩
  | notified => exact .inl ⟨Pump.notifiedForward stepped,rfl,nofun⟩
  | spliceShutdown => exact .inl ⟨Pump.spliceShutdownForward stepped,rfl,nofun⟩
  | spliceRead chunk => exact .inr ⟨Pump.spliceReadBack stepped,rfl⟩
  | spliceReadFailed => exact .inr ⟨Pump.spliceReadFailedBack stepped,rfl⟩
  | tick => exact .inr ⟨Pump.tickBack stepped,rfl⟩
  | keepaliveWrote => exact .inr ⟨Pump.keepaliveWroteBack stepped,rfl⟩
  | keepaliveFailed => exact .inr ⟨Pump.keepaliveFailedBack stepped,rfl⟩
  | clientWrote count => exact .inr ⟨Pump.clientWroteBack stepped,rfl⟩
  | clientWriteFailed => exact .inr ⟨Pump.clientWriteFailedBack stepped,rfl⟩
  | clientFlushed => exact .inr ⟨Pump.clientFlushedBack stepped,rfl⟩
  | clientShutdown => exact .inr ⟨Pump.clientShutdownBack stepped,rfl⟩
  | linger => exact .inr ⟨Pump.lingerBack stepped,rfl⟩

/- What the pump has read it has written or has still to write, as long as it runs. -/
structure Pumped (keepalive : Bool) (events : List (Nat × Event)) (s : Pump) : Prop where
  setting : s.keepalive = keepalive
  forward : ∃ lost, clientBytes events = s.toSplice ++ s.clientToSplice.rest ++ lost ∧ (s.finished = false → lost = [])
  back : ∃ sent lost, s.toClient = .replicate (keepalives events) 0 ++ sent ∧
    spliceBytes events = sent ++ s.spliceToClient.rest ++ lost ∧ (s.finished = false → lost = [])
  parked : s.parked = (spliceBytes events).isEmpty
  ticking : s.spliceToClient = .keepalive → s.parked = true ∧ s.keepalive = true
  quiet : s.keepalive = false → keepalives events = 0
  shut : s.spliceShut = true → spliceBytes events ≠ []

theorem spliceNext (events : List (Nat × Event)) (now : Nat) (event : Event) :
    spliceBytes (events ++ [(now,event)]) = spliceBytes events ++ event.ofSplice := by
  simp [spliceBytes]

theorem pumpedStep {keepalive : Bool} {events : List (Nat × Event)} {s s' : Pump} {now : Nat} {event : Event}
    (pumped : Pumped keepalive events s) (stepped : s.step now event = some s') :
    Pumped keepalive (events ++ [(now,event)]) s' := by
  obtain ⟨running,moves⟩ := stepCases stepped
  obtain ⟨lost,read,none'⟩ := pumped.forward
  obtain rfl := none' running
  obtain ⟨sent,lost,wrote,taken,none'⟩ := pumped.back
  obtain rfl := none' running
  have client : clientBytes (events ++ [(now,event)]) = clientBytes events ++ event.ofClient := by simp [clientBytes]
  have splice := spliceNext events now event
  have nuls : keepalives (events ++ [(now,event)]) = keepalives events + (if event == .keepaliveWrote then 1 else 0) := by
    simp [keepalives, List.countP_append, List.countP_cons]
  obtain ⟨step,silent,other⟩ | ⟨step,silent⟩ := moves
  · have noNul : (event == .keepaliveWrote) = false := by simpa using other
    rw [silent, List.append_nil] at splice
    rw [noNul, if_neg Bool.false_ne_true, Nat.add_zero] at nuls
    obtain ⟨lost,parts,drops⟩ := step.bytes
    refine ⟨step.keepalive.trans pumped.setting,⟨lost,?_,drops⟩,⟨sent,[],?_,?_,fun _ => rfl⟩,?_,?_,?_,?_⟩
    · rw [client, read, List.append_nil, parts]
    · rw [nuls, step.toClient, wrote]
    · rw [splice, step.spliceToClient, taken]
    · rw [splice, step.parked, pumped.parked]
    · rw [step.spliceToClient, step.parked, step.keepalive]
      exact pumped.ticking
    · rw [nuls, step.keepalive]
      exact pumped.quiet
    · rw [splice]
      intro shut
      obtain before | ended := step.shut shut
      · exact pumped.shut before
      · intro empty
        rw [pumped.parked, empty] at ended
        contradiction
  · rw [silent, List.append_nil] at client
    obtain ⟨more,lost,written,parts,drops⟩ := step.bytes
    have empty : event = .keepaliveWrote → spliceBytes events = [] := by
      intro nul
      have live := (pumped.ticking (step.ticked (by simp [nul]))).1
      simpa [pumped.parked] using live
    refine ⟨step.keepalive.trans pumped.setting,⟨[],?_,fun _ => rfl⟩,⟨sent ++ more,lost,?_,?_,drops⟩,?_,?_,?_,?_⟩
    · rw [client, read, step.toSplice, step.clientToSplice]
    · rw [nuls, written, wrote]
      cases nul : event == .keepaliveWrote with
      | true =>
        rw [empty (by simpa using nul)] at taken
        obtain rfl : sent = [] := by simpa using (List.append_eq_nil_iff.mp (List.append_eq_nil_iff.mp taken.symm).1).1
        simp [List.replicate_succ']
      | false => simp
    · rw [splice, taken, List.append_nil, List.append_assoc, parts]
      simp
    · rw [splice, step.parked, pumped.parked]
      cases spliceBytes events <;> rfl
    · intro ticking
      obtain ⟨still,before⟩ := step.ticks ticking
      obtain ⟨live,setting⟩ := before.elim pumped.ticking id
      exact ⟨by rw [step.parked, live, still]; rfl,step.keepalive.trans setting⟩
    · intro off
      rw [step.keepalive] at off
      have noNul : (event == .keepaliveWrote) = false := by
        by_contra nul
        have on := (pumped.ticking (step.ticked (by simpa using nul))).2
        rw [off] at on
        contradiction
      rw [nuls, noNul, pumped.quiet off]
      rfl
    · rw [splice, step.spliceShut]
      intro shut empty
      exact pumped.shut shut (List.append_eq_nil_iff.mp empty).1

theorem pumpedRun {keepalive : Bool} {events : List (Nat × Event)} {s : Pump} (runs : Runs keepalive events s) :
    Pumped keepalive events s := by
  induction runs with
  | start => exact ⟨rfl,⟨[],rfl,fun _ => rfl⟩,⟨[],[],rfl,rfl,fun _ => rfl⟩,rfl,nofun,fun _ => rfl,nofun⟩
  | next before stepped ih => exact pumpedStep ih stepped

theorem runsLast {keepalive : Bool} {events : List (Nat × Event)} {e : Nat × Event} {s : Pump}
    (runs : Runs keepalive (events ++ [e]) s) : ∃ m, Runs keepalive events m ∧ m.step e.1 e.2 = some s := by
  generalize same : events ++ [e] = all at runs
  cases runs with
  | start => simp at same
  | next before stepped =>
    obtain ⟨rfl,last⟩ := List.append_inj' same rfl
    obtain rfl := List.singleton_inj.mp last
    exact ⟨_,before,stepped⟩

/- The step that an event of a run was. -/
theorem runsAt {keepalive : Bool} {before after : List (Nat × Event)} {e : Nat × Event} {s : Pump}
    (runs : Runs keepalive (before ++ e :: after) s) : ∃ m m', Runs keepalive before m ∧ m.step e.1 e.2 = some m' := by
  induction after using List.reverseRecOn generalizing s with
  | nil =>
    obtain ⟨m,earlier,stepped⟩ := runsLast runs
    exact ⟨m,s,earlier,stepped⟩
  | append_singleton after last ih =>
    rw [← List.cons_append, ← List.append_assoc] at runs
    obtain ⟨m,earlier,_⟩ := runsLast runs
    exact ih earlier

section Death
variable {s s' : Pump} {now : Nat} {event : Event}

@[simp] theorem armDead : (s.armLinger now).dead = s.dead := by
  unfold Pump.armLinger
  split <;> rfl

@[simp] theorem clientToSpliceDead (aborted : Bool) : (s.clientToSpliceEnds aborted now).dead = s.dead := by
  unfold Pump.clientToSpliceEnds
  simp only
  split
  · rfl
  · exact armDead

@[simp] theorem spliceToClientDead (failed : Bool) : (s.spliceToClientEnds failed now).dead = s.dead := by
  unfold Pump.spliceToClientEnds
  simp only
  split
  · rfl
  · exact armDead

@[simp] theorem passDead : s.passHalfClose.dead = s.dead := by
  unfold Pump.passHalfClose
  split <;> rfl

/- What sets the flag, while the leg is parked. -/
theorem deathCause (stepped : s.step now event = some s') (alive : s.dead = false) (dead : s'.dead = true) :
    event = .clientReadFailed ∧ s.parked = true ∨ event = .clientRead [] ∧ s.parked = true ∧ s.keepalive = true ∨
      event = .keepaliveFailed ∧ s.spliceToClient = .keepalive := by
  unfold Pump.step at stepped
  split at stepped <;> try contradiction
  cases event with
  | clientRead chunk =>
    simp only [Pump.clientRead] at stepped
    split at stepped <;> try contradiction
    split at stepped
    case isTrue closed =>
      split at stepped
      case isTrue promised => exact .inr (.inl ⟨by rw [List.isEmpty_iff.mp closed],by simpa [and_comm] using promised⟩)
      case isFalse =>
        cases Option.some.inj stepped
        simp [alive] at dead
    case isFalse =>
      cases Option.some.inj stepped
      simp [Pump.touch, alive] at dead
  | clientReadFailed =>
    simp only [Pump.clientReadFailed] at stepped
    split at stepped <;> try contradiction
    cases Option.some.inj stepped
    by_cases parked : s.parked
    · exact .inl ⟨rfl,parked⟩
    · simp [parked, alive] at dead
  | keepaliveFailed =>
    simp only [Pump.keepaliveFailed] at stepped
    split at stepped <;> try contradiction
    rename_i ticking
    exact .inr (.inr ⟨rfl,ticking⟩)
  | notified =>
    simp only [Pump.notified] at stepped
    split at stepped <;> try contradiction
    cases Option.some.inj stepped
    simp [alive] at dead
  | _ =>
    simp only [Pump.spliceWrote, Pump.spliceWriteFailed, Pump.spliceFlushed, Pump.spliceShutdown, Pump.spliceRead,
      Pump.spliceReadFailed, Pump.tick, Pump.keepaliveWrote, Pump.clientWrote, Pump.clientWriteFailed, Pump.clientFlushed,
      Pump.clientShutdown, Pump.lingerElapsed] at stepped
    grind [Pump.leave, Pump.touch, clientToSpliceDead, spliceToClientDead]

end Death

/- Whatever the order of the events: keepalives and then what the splice has sent, nothing but what the client has sent, no
half-close before the first chunk from the splice, and no death after it. -/
theorem pumpSound {keepalive : Bool} {events : List (Nat × Event)} {s : Pump} (runs : Runs keepalive events s) :
    (∃ sent, s.toClient = .replicate (keepalives events) 0 ++ sent ∧ sent <+: spliceBytes events) ∧
    (keepalive = false → keepalives events = 0) ∧
    (∀ before after now, events = before ++ (now,.keepaliveWrote) :: after → spliceBytes before = []) ∧
    s.toSplice <+: clientBytes events ∧
    (s.spliceShut = true → spliceBytes events ≠ []) ∧
    ∀ now event s', s.step now event = some s' → s.dead = false → s'.dead = true →
      spliceBytes (events ++ [(now,event)]) = [] ∧
        (event = .clientReadFailed ∨ keepalive = true ∧ (event = .clientRead [] ∨ event = .keepaliveFailed)) := by
  have pumped : Pumped keepalive events s := pumpedRun runs
  obtain ⟨lostForward,read,_⟩ := pumped.forward
  obtain ⟨sent,lostBack,wrote,taken,_⟩ := pumped.back
  refine ⟨⟨sent,wrote,?_⟩,?_,?_,?_,pumped.shut,?_⟩
  · rw [taken, List.append_assoc]
    exact List.prefix_append sent _
  · intro off
    exact pumped.quiet (pumped.setting.trans off)
  · rintro before after now rfl
    obtain ⟨m,m',earlier,stepped⟩ := runsAt runs
    have then' : Pumped keepalive before m := pumpedRun earlier
    obtain ⟨_,⟨_,_,other⟩ | ⟨back,_⟩⟩ := stepCases stepped
    · exact absurd rfl other
    · have parked := (then'.ticking (back.ticked rfl)).1
      rwa [then'.parked, List.isEmpty_iff] at parked
  · rw [read, List.append_assoc]
    exact List.prefix_append s.toSplice _
  · intro now event s' stepped alive dead
    have unseen : s.parked = true → event.ofSplice = [] → spliceBytes (events ++ [(now,event)]) = [] := by
      intro parked silent
      rw [pumped.parked, List.isEmpty_iff] at parked
      rw [spliceNext, parked, silent]
      rfl
    obtain ⟨rfl,parked⟩ | ⟨rfl,parked,setting⟩ | ⟨rfl,ticking⟩ := deathCause stepped alive dead
    · exact ⟨unseen parked rfl,.inl rfl⟩
    · exact ⟨unseen parked rfl,.inr ⟨pumped.setting.symm.trans setting,.inl rfl⟩⟩
    · obtain ⟨parked,setting⟩ := pumped.ticking ticking
      exact ⟨unseen parked rfl,.inr ⟨pumped.setting.symm.trans setting,.inr rfl⟩⟩

/- A run of the pump on a list of events, if they come in an order that is possible. -/
def Pump.after (s : Pump) : List (Nat × Event) → Option Pump
  | [] => some s
  | (now,event) :: rest => (s.step now event).bind (fun s => s.after rest)

theorem runsAfter {keepalive : Bool} {earlier events : List (Nat × Event)} {s s' : Pump} (runs : Runs keepalive earlier s)
    (after : s.after events = some s') : Runs keepalive (earlier ++ events) s' := by
  induction events generalizing s earlier with
  | nil =>
    cases Option.some.inj after
    simpa using runs
  | cons e rest ih =>
    obtain ⟨m,stepped,later⟩ := Option.bind_eq_some_iff.mp after
    simpa using ih (.next runs stepped) later

/- Two keepalives, the ack, and a half-close of the client that it lets through. -/
def sampleEvents : List (Nat × Event) :=
  [(100,.tick),(100,.keepaliveWrote),(100,.clientFlushed),(120,.clientRead [7,8]),(120,.spliceWrote 2),(120,.spliceFlushed),
    (200,.tick),(200,.keepaliveWrote),(200,.clientFlushed),(250,.spliceRead [79,75]),(250,.clientWrote 1),
    (260,.clientRead []),(270,.clientWrote 1),(270,.clientFlushed)]

def sampleEnd : Pump :=
  { keepalive := true, parked := false, unparked := true, lastActiveMs := 250, clientToSplice := .shutdown, toSplice := [7,8],
    toClient := [0,0,79,75], spliceShut := true }

theorem pumpSoundSample :
    (∃ sent, sampleEnd.toClient = .replicate (keepalives sampleEvents) 0 ++ sent ∧ sent <+: spliceBytes sampleEvents) ∧
    sampleEnd.toSplice <+: clientBytes sampleEvents ∧ spliceBytes sampleEvents ≠ [] := by
  have runs : Runs true sampleEvents sampleEnd := runsAfter .start (by decide +kernel)
  obtain ⟨toClient,_,_,toSplice,shut,_⟩ := pumpSound runs
  exact ⟨toClient,toSplice,shut rfl⟩

end CadsTunnel.ParkPump
