import CadsTunnel.DeliverySound

/-! What one side of the second delivery pump takes and gives, whatever records come in:
nothing is delivered after the peer's FIN, the one acknowledgement carries the count
of what was delivered, reports of progress rise and stay below it, and a confirmation
counts only if it names what this side sent. A report of progress that comes in is not
compared with anything. -/
namespace CadsTunnel.Delivery
open Words

/- The application bytes among records as they come in. -/
def application (heard : List Bytes) : Bytes :=
  heard.flatMap fun
    | tag :: body => if tag = recData then body else []
    | [] => []

def isDataRecord (raw : Bytes) : Prop := raw.head? = some recData

/- The body of a FIN that ends the peer's stream normally after `count` bytes. -/
structure EndsAt (body : Bytes) (count : UInt64) : Prop where
  length : body.length = 9
  reason : FinReason.fromByte (body.getD 8 0) = .normal
  announced : u64At body = count

def finAckCount : Record → List UInt64
  | .finAck received => [received]
  | _ => []

def progressCount : Record → List UInt64
  | .progress delivered => [delivered]
  | _ => []

/- The records that come in, one after another, and what the side has become: between two of them
it goes on by itself, with its local side and its transport. -/
inductive Reaches (finAckIdle : Nat) : List Bytes → Side → Prop
  | start : Reaches finAckIdle [] (.start finAckIdle)
  | own {heard : List Bytes} {x x' : Side} (peer : Side) (event : Event) : Reaches finAckIdle heard x → event ≠ .arrive →
      x.step peer event = some x' → Reaches finAckIdle heard x'
  | record {heard : List Bytes} {x : Side} (raw : Bytes) : Reaches finAckIdle heard x → x.result = none → x.atRead = true →
      Reaches finAckIdle (heard ++ [raw]) (x.receive raw)

/- What is delivered, of what came in. -/
def Taking (heard : List Bytes) (output : Bytes) (received : UInt64) : Phase → Prop
  | .reading => output = application heard
  | .delivering bytes => output ++ bytes = application heard
  | .closing => ∃ before body, heard = before ++ [recFin :: body] ∧ EndsAt body received ∧ output = application before
  | .aborting _ | .leaving _ => True

def Failed (result : Option (Except PumpError DeliveryReport)) : Prop := ∃ error, result = some (.error error)

/- The peer's FIN came in and its count was that of the bytes delivered. -/
def Ended (heard : List Bytes) (output : Bytes) (received : UInt64) : Prop :=
  ∃ before body after, heard = before ++ (recFin :: body) :: after ∧ EndsAt body received ∧ output = application before

def Phase.takes : Phase → Bool
  | .reading | .delivering _ => true
  | _ => false

structure Hearing (heard : List Bytes) (result : Option (Except PumpError DeliveryReport)) (theirFin : Bool) (phase : Phase)
    (output : Bytes) (received : UInt64) : Prop where
  bound : received.toNat ≤ output.length
  exact : (∃ error, phase = .aborting error) ∨ received = .ofNat output.length
  open' : theirFin = false → result = none → Taking heard output received phase
  shut : theirFin = true → (phase = .reading ∨ ∃ error, phase = .leaving error) ∧ Ended heard output received

/- Control records that are on the wire or about to be. -/
def Write.finAcks : Option Write → List UInt64
  | some (.finAck received) => [received]
  | _ => []

def Write.progresses : Option Write → List UInt64
  | some (.progress delivered) => [delivered]
  | _ => []

def Write.bytes : Option Write → Bytes
  | some (.data bytes) => bytes
  | _ => []

def queuedAcks (queue : List ToOutbound) : List UInt64 :=
  queue.flatMap fun
    | .finAck received => [received]
    | .abort .. => []

def unsent {α : Type} (emitted : Bool) (items : List α) : List α := if emitted then [] else items

structure Acking (wrote : List Record) (pending : Option Write) (emitted : Bool) (queue : List ToOutbound) (theirFin : Bool)
    (received : UInt64) : Prop where
  once : theirFin = true → wrote.flatMap finAckCount ++ (unsent emitted (Write.finAcks pending) ++ queuedAcks queue) = [received]
  before : theirFin = false → wrote.flatMap finAckCount ++ (unsent emitted (Write.finAcks pending) ++ queuedAcks queue) = []

structure Reporting (wrote : List Record) (pending : Option Write) (emitted : Bool) (reported : UInt64) (output : Bytes) : Prop where
  rising : (wrote.flatMap progressCount ++ unsent emitted (Write.progresses pending)).Pairwise (· < ·)
  bound : ∀ v ∈ wrote.flatMap progressCount ++ unsent emitted (Write.progresses pending), v.toNat ≤ output.length
  reached : ∀ v ∈ wrote.flatMap progressCount ++ unsent emitted (Write.progresses pending), v ≤ reported ∨ pending = some (.progress v)
  above : ∀ v, pending = some (.progress v) → reported < v

structure Sending (wrote : List Record) (pending : Option Write) (emitted : Bool) (sent : UInt64) (finSent localOpen inputEnded : Bool) :
    Prop where
  count : sent.toNat + (if emitted then (Write.bytes pending).length else 0) ≤ (payload wrote).length
  exact : sent + .ofNat (if emitted then (Write.bytes pending).length else 0) = .ofNat (payload wrote).length
  ended : finSent = true → inputEnded = true ∧ Write.bytes pending = [] ∧ (localOpen = false ∨ pending = some .fin)

structure Kept (heard : List Bytes) (x : Side) : Prop where
  hearing : Hearing heard x.result x.theirFin x.phase x.output x.received
  acking : Acking x.wrote x.pending x.emitted x.queue x.theirFin x.received
  reporting : Reporting x.wrote x.pending x.emitted x.reported x.output
  sending : Sending x.wrote x.pending x.emitted x.sent x.finSent x.localOpen x.inputEnded

namespace Side
variable {heard : List Bytes} {x x' : Side}

theorem keptStart (finAckIdle : Nat) : Kept [] (start finAckIdle) where
  hearing := ⟨by simp [start],.inr (by simp [start]),fun _ _ => rfl,by simp [start]⟩
  acking := ⟨by simp [start],fun _ => rfl⟩
  reporting := ⟨by simp [start, unsent, Write.progresses],by simp [start, unsent, Write.progresses],
    by simp [start, unsent, Write.progresses],by simp [start]⟩
  sending := ⟨by simp [start, payload],by simp [start, payload],by simp [start]⟩

theorem keptFail (kept : Kept heard x) (error : PumpError) : Kept heard (x.fail error) where
  hearing := by
    refine ⟨kept.hearing.bound,kept.hearing.exact,fun _ none => (nomatch none),fun shut => ?_⟩
    exact kept.hearing.shut shut
  acking := kept.acking
  reporting := kept.reporting
  sending := kept.sending

/- Between two writes nothing is on its way. -/
theorem ackingBegin (kept : Kept heard x) (idle : x.pending = none) {write : Write} (plain : Write.finAcks (some write) = []) :
    Acking x.wrote (some write) false x.queue x.theirFin x.received := by
  obtain ⟨once,before⟩ := kept.acking
  have same : unsent x.emitted (Write.finAcks x.pending) = unsent false (Write.finAcks (some write)) := by
    rw [idle, plain]
    cases x.emitted <;> rfl
  rw [same] at once before
  exact ⟨once,before⟩

theorem reportingBegin (kept : Kept heard x) (idle : x.pending = none) {write : Write} (silent : Write.progresses (some write) = []) :
    Reporting x.wrote (some write) false x.reported x.output := by
  obtain ⟨rising,bound,reached,_⟩ := kept.reporting
  have same : unsent x.emitted (Write.progresses x.pending) = unsent false (Write.progresses (some write)) := by
    rw [idle, silent]
    cases x.emitted <;> rfl
  rw [same] at rising bound reached
  refine ⟨rising,bound,fun v mem => (reached v mem).imp_right fun none => ?_,fun v progress => ?_⟩
  · rw [idle] at none
    contradiction
  · cases Option.some.inj progress
    contradiction

theorem sendingBegin (kept : Kept heard x) (idle : x.pending = none) {write : Write} {finSent inputEnded : Bool}
    (ended : finSent = true → inputEnded = true ∧ Write.bytes (some write) = [] ∧ (x.localOpen = false ∨ some write = some .fin)) :
    Sending x.wrote (some write) false x.sent finSent x.localOpen inputEnded := by
  obtain ⟨count,exact',_⟩ := kept.sending
  have none' : (if x.emitted then (Write.bytes x.pending).length else 0) = 0 := by
    rw [idle]
    cases x.emitted <;> rfl
  rw [none'] at count exact'
  exact ⟨count,exact',ended⟩

theorem idleEnded (kept : Kept heard x) (idle : x.pending = none) (fin : x.finSent = true) :
    x.inputEnded = true ∧ x.localOpen = false := by
  obtain ⟨input,_,shut | pending⟩ := kept.sending.ended fin
  · exact ⟨input,shut⟩
  · rw [idle] at pending
    contradiction

theorem keptBegin (kept : Kept heard x) (idle : x.pending = none) {write : Write} (plain : Write.finAcks (some write) = [])
    (silent : Write.progresses (some write) = []) (light : x.finSent = true → Write.bytes (some write) = []) :
    Kept heard (x.beginWrite write) where
  hearing := kept.hearing
  acking := ackingBegin kept idle plain
  reporting := reportingBegin kept idle silent
  sending := sendingBegin kept idle fun fin => ⟨(idleEnded kept idle fin).1,light fin,.inl (idleEnded kept idle fin).2⟩

theorem keptCommand (kept : Kept heard x) (idle : x.pending = none) (h : x.command = some x') : Kept heard x' := by
  unfold command at h
  split at h
  · rename_i received rest queued
    cases Option.some.inj h
    refine ⟨kept.hearing,?_,reportingBegin kept idle rfl,sendingBegin kept idle fun fin =>
      ⟨(idleEnded kept idle fin).1,rfl,.inl (idleEnded kept idle fin).2⟩⟩
    obtain ⟨once,before⟩ := kept.acking
    have same : unsent x.emitted (Write.finAcks x.pending) ++ queuedAcks x.queue =
        unsent false (Write.finAcks (some (.finAck received))) ++ queuedAcks rest := by
      rw [idle, queued]
      cases x.emitted <;> rfl
    rw [same] at once before
    exact ⟨once,before⟩
  · rename_i reason error rest queued
    cases Option.some.inj h
    have popped : Kept heard { x with queue := rest } := by
      refine { kept with acking := ?_ }
      obtain ⟨once,before⟩ := kept.acking
      rw [queued] at once before
      exact ⟨once,before⟩
    exact keptBegin popped idle rfl rfl fun _ => rfl
  · contradiction

theorem keptTick (kept : Kept heard x) (idle : x.pending = none) (h : x.tick = some x') : Kept heard x' := by
  unfold tick at h
  split at h <;> try contradiction
  split at h
  · rename_i more
    cases Option.some.inj h
    refine ⟨kept.hearing,ackingBegin kept idle rfl,?_,sendingBegin kept idle fun fin =>
      ⟨(idleEnded kept idle fin).1,rfl,.inl (idleEnded kept idle fin).2⟩⟩
    obtain ⟨rising,bound,reached,_⟩ := kept.reporting
    have none' : unsent x.emitted (Write.progresses x.pending) = [] := by
      rw [idle]
      cases x.emitted <;> rfl
    rw [none', List.append_nil] at rising bound reached
    have old : ∀ v ∈ x.wrote.flatMap progressCount, v ≤ x.reported := by
      intro v mem
      rcases reached v mem with low | pending
      · exact low
      · rw [idle] at pending
        contradiction
    refine ⟨List.pairwise_append.mpr ⟨rising,List.pairwise_singleton _ _,?_⟩,?_,?_,?_⟩
    · intro v mem w last
      rw [List.mem_singleton.mp last]
      exact UInt64.lt_of_le_of_lt (old v mem) more
    · intro v mem
      rcases List.mem_append.mp mem with before | last
      · exact bound v before
      · rw [List.mem_singleton.mp last]
        exact kept.hearing.bound
    · intro v mem
      rcases List.mem_append.mp mem with before | last
      · exact .inl (old v before)
      · rw [List.mem_singleton.mp last]
        exact .inr rfl
    · intro v same
      cases same
      exact more
  · cases Option.some.inj h
    exact kept

theorem keptReadEnd {reason : FinReason} (kept : Kept heard x) (idle : x.pending = none) (h : x.readEnd reason = some x') :
    Kept heard x' := by
  unfold readEnd at h
  split at h <;> try contradiction
  dsimp only at h
  split at h
  · cases Option.some.inj h
    exact ⟨kept.hearing,ackingBegin kept idle rfl,reportingBegin kept idle rfl,sendingBegin kept idle fun fin =>
      ⟨rfl,rfl,.inl (idleEnded kept idle fin).2⟩⟩
  · cases Option.some.inj h
    exact ⟨kept.hearing,ackingBegin kept idle rfl,reportingBegin kept idle rfl,sendingBegin kept idle fun _ => ⟨rfl,rfl,.inr rfl⟩⟩

theorem recordCounts (x : Side) (write : Write) : finAckCount (x.record write) = Write.finAcks (some write) ∧
    progressCount (x.record write) = Write.progresses (some write) ∧ payload [x.record write] = Write.bytes (some write) := by
  cases write <;> exact ⟨rfl,rfl,by simp [record, payload, Write.bytes]⟩

theorem keptEmit (kept : Kept heard x) (h : x.emit = some x') : Kept heard x' := by
  unfold emit at h
  split at h <;> try contradiction
  rename_i write pending
  split at h <;> try contradiction
  rename_i fresh
  have fresh : x.emitted = false := by simpa using fresh
  cases Option.some.inj h
  obtain ⟨acks,reports,carried⟩ := recordCounts x write
  refine ⟨kept.hearing,?_,?_,?_⟩
  · obtain ⟨once,before⟩ := kept.acking
    have same : (x.wrote ++ [x.record write]).flatMap finAckCount ++ (unsent true (Write.finAcks x.pending) ++ queuedAcks x.queue) =
        x.wrote.flatMap finAckCount ++ (unsent x.emitted (Write.finAcks x.pending) ++ queuedAcks x.queue) := by
      rw [List.flatMap_append, List.flatMap_singleton, acks, pending, fresh, List.append_assoc]
      rfl
    rw [← same] at once before
    exact ⟨once,before⟩
  · obtain ⟨rising,bound,reached,above⟩ := kept.reporting
    have same : (x.wrote ++ [x.record write]).flatMap progressCount ++ unsent true (Write.progresses x.pending) =
        x.wrote.flatMap progressCount ++ unsent x.emitted (Write.progresses x.pending) := by
      rw [List.flatMap_append, List.flatMap_singleton, reports, pending, fresh, List.append_assoc]
      exact congrArg _ (List.append_nil _)
    rw [← same] at rising bound reached
    exact ⟨rising,bound,reached,above⟩
  · obtain ⟨count,exact',ended⟩ := kept.sending
    rw [fresh] at count exact'
    have more : (payload (x.wrote ++ [x.record write])).length = (payload x.wrote).length + (Write.bytes x.pending).length := by
      rw [payloadAppend, List.length_append, carried, pending]
    refine ⟨?_,?_,ended⟩
    · dsimp only
      rw [more, if_pos rfl]
      exact Nat.add_le_add_right count _
    · dsimp only
      rw [more, if_pos rfl, UInt64.ofNat_add, ← exact']
      simp

/- When a write returns nothing is on its way. -/
theorem keptReturn (kept : Kept heard x) (emitted : x.emitted = true) {reported sent : UInt64} {localOpen : Bool}
    (reports : ∀ v, v ≤ x.reported ∨ x.pending = some (.progress v) → v ≤ reported)
    (counts : sent.toNat ≤ x.sent.toNat + (Write.bytes x.pending).length ∧ sent = x.sent + .ofNat (Write.bytes x.pending).length)
    (shuts : x.localOpen = false ∨ x.pending = some .fin → localOpen = false) :
    Acking x.wrote none x.emitted x.queue x.theirFin x.received ∧ Reporting x.wrote none x.emitted reported x.output ∧
      Sending x.wrote none x.emitted sent x.finSent localOpen x.inputEnded := by
  obtain ⟨once,before⟩ := kept.acking
  obtain ⟨rising,bound,reached,_⟩ := kept.reporting
  obtain ⟨count,exact',ended⟩ := kept.sending
  rw [emitted] at once before rising bound reached count exact' ⊢
  refine ⟨⟨once,before⟩,⟨rising,bound,fun v mem => .inl (reports v (reached v mem)),fun v none => (nomatch none)⟩,?_,?_,fun fin => ?_⟩
  · exact (counts.1.trans count : _)
  · rw [counts.2]
    simpa [Write.bytes] using exact'
  · obtain ⟨input,_,shut⟩ := ended fin
    exact ⟨input,rfl,.inl (shuts shut)⟩

theorem keptFinish (kept : Kept heard x) {write : Write} (pending : x.pending = some write) (emitted : x.emitted = true) :
    Kept heard (x.finish write) := by
  have low {v : UInt64} (other : ∀ v, write ≠ .progress v) (reach : v ≤ x.reported ∨ x.pending = some (.progress v)) : v ≤ x.reported := by
    rcases reach with low | same
    · exact low
    · exact absurd (Option.some.inj (pending.symm.trans same)) (other v)
  have kind (other : write ≠ .fin) (shut : x.localOpen = false ∨ x.pending = some .fin) : x.localOpen = false := by
    rcases shut with shut | same
    · exact shut
    · exact absurd (Option.some.inj (pending.symm.trans same)) other
  have still (light : Write.bytes (some write) = []) :
      x.sent.toNat ≤ x.sent.toNat + (Write.bytes x.pending).length ∧ x.sent = x.sent + .ofNat (Write.bytes x.pending).length := by
    rw [pending, light]
    simp
  cases write with
  | data bytes =>
    have counts : (x.sent + .ofNat bytes.length).toNat ≤ x.sent.toNat + (Write.bytes x.pending).length ∧
        x.sent + .ofNat bytes.length = x.sent + .ofNat (Write.bytes x.pending).length := by
      rw [pending, UInt64.toNat_add, UInt64.toNat_ofNat']
      refine ⟨(Nat.mod_le _ _).trans (Nat.add_le_add_left (Nat.mod_le _ _) _),rfl⟩
    obtain ⟨acking,reporting,sending⟩ := keptReturn kept emitted (fun v => low (by simp)) counts (kind (by simp))
    exact ⟨kept.hearing,acking,reporting,sending⟩
  | fin =>
    obtain ⟨acking,reporting,sending⟩ := @keptReturn _ _ kept emitted _ _ false (fun v => low (by simp)) (still rfl) (fun _ => rfl)
    exact ⟨kept.hearing,acking,reporting,sending⟩
  | finAck received =>
    obtain ⟨acking,reporting,sending⟩ := keptReturn kept emitted (fun v => low (by simp)) (still rfl) (kind (by simp))
    exact ⟨kept.hearing,acking,reporting,sending⟩
  | progress delivered =>
    have reports (v : UInt64) (reach : v ≤ x.reported ∨ x.pending = some (.progress v)) : v ≤ delivered := by
      rcases reach with low | same
      · exact UInt64.le_of_lt (UInt64.lt_of_le_of_lt low (kept.reporting.above delivered pending))
      · cases Option.some.inj (pending.symm.trans same)
        exact UInt64.le_refl _
    obtain ⟨acking,reporting,sending⟩ := keptReturn kept emitted reports (still rfl) (kind (by simp))
    exact ⟨kept.hearing,acking,reporting,sending⟩
  | abort reason error => exact keptFail kept error

theorem keptWritten (kept : Kept heard x) (h : x.written = some x') : Kept heard x' := by
  unfold written at h
  split at h <;> try contradiction
  rename_i write pending
  split at h <;> try contradiction
  rename_i emitted
  cases Option.some.inj h
  exact keptFinish kept pending emitted

theorem keptWriteFailed {error : IoError} (kept : Kept heard x) (h : x.writeFailed error = some x') : Kept heard x' := by
  unfold writeFailed at h
  split at h <;> try contradiction
  · cases Option.some.inj h
    exact keptFail kept _
  · cases Option.some.inj h
    exact keptFail kept _

theorem keptSealFailed {error : IoError} (kept : Kept heard x) (h : x.sealFailed error = some x') : Kept heard x' := by
  unfold sealFailed at h
  split at h <;> try contradiction
  split at h <;> try contradiction
  cases Option.some.inj h
  exact keptFail kept _

/- A side that hands something to its local side has not seen the peer's FIN. -/
theorem busyOpen (kept : Kept heard x) (busy : x.phase.isBusy = true) : x.theirFin = false := by
  rw [← Bool.not_eq_true]
  intro shut
  rcases (kept.hearing.shut shut).1 with reading | ⟨error,leaving⟩
  · rw [reading] at busy
    contradiction
  · rw [leaving] at busy
    contradiction

theorem steadyExact (kept : Kept heard x) (steady : ∀ error, x.phase ≠ .aborting error) : x.received = .ofNat x.output.length := by
  rcases kept.hearing.exact with ⟨error,aborting⟩ | exact'
  · exact absurd aborting (steady error)
  · exact exact'

theorem reportingLonger (kept : Kept heard x) (more : Bytes) :
    Reporting x.wrote x.pending x.emitted x.reported (x.output ++ more) := by
  obtain ⟨rising,bound,reached,above⟩ := kept.reporting
  refine ⟨rising,fun v mem => (bound v mem).trans ?_,reached,above⟩
  rw [List.length_append]
  exact Nat.le_add_right _ _

theorem keptDelivered (kept : Kept heard x) (alive : x.result = none) (h : x.delivered = some x') : Kept heard x' := by
  unfold delivered at h
  split at h <;> try contradiction
  · rename_i bytes phase
    cases Option.some.inj h
    have isOpen := busyOpen kept (by rw [phase]; rfl)
    have taking := kept.hearing.open' isOpen alive
    have exact' := steadyExact kept (by rw [phase]; simp)
    rw [phase] at taking
    refine ⟨⟨?_,.inr ?_,fun _ _ => taking,fun shut => ?_⟩,?_,reportingLonger kept bytes,kept.sending⟩
    · rw [UInt64.toNat_add, UInt64.toNat_ofNat', List.length_append]
      exact (Nat.mod_le _ _).trans (Nat.add_le_add kept.hearing.bound (Nat.mod_le _ _))
    · rw [List.length_append, UInt64.ofNat_add, exact']
    · rw [isOpen] at shut
      contradiction
    · refine ⟨fun shut => ?_,kept.acking.before⟩
      rw [isOpen] at shut
      contradiction
  · rename_i phase
    cases Option.some.inj h
    have isOpen := busyOpen kept (by rw [phase]; rfl)
    have taking := kept.hearing.open' isOpen alive
    have exact' := steadyExact kept (by rw [phase]; simp)
    rw [phase] at taking
    obtain ⟨before,body,split,fin,output⟩ := taking
    refine ⟨⟨kept.hearing.bound,.inr exact',fun shut => (nomatch shut),fun _ => ?_⟩,?_,
      kept.reporting,kept.sending⟩
    · exact ⟨.inl rfl,before,body,[],split,fin,output⟩
    · refine ⟨fun _ => ?_,fun shut => (nomatch shut)⟩
      have queued : queuedAcks (x.queue ++ [.finAck x.received]) = queuedAcks x.queue ++ [x.received] := by simp [queuedAcks]
      dsimp only
      rw [queued, ← List.append_assoc (unsent _ _), ← List.append_assoc, kept.acking.before isOpen]
      rfl

theorem keptDeliveryFailed {error : IoError} {answer : FinReason} {count : Nat} (kept : Kept heard x)
    (h : x.deliveryFailed error answer count = some x') : Kept heard x' := by
  have aborts (isOpen : x.theirFin = false) (more : Bytes) : Kept heard ({ x with output := x.output ++ more }.abort error answer) := by
    have queued (own : PumpError) : queuedAcks (x.queue ++ [.abort answer.ofFailure own]) = queuedAcks x.queue := by
      simp [queuedAcks]
    refine ⟨⟨?_,.inl ⟨_,rfl⟩,fun _ _ => trivial,fun shut => ?_⟩,⟨fun shut => ?_,fun _ => ?_⟩,reportingLonger kept more,kept.sending⟩
    · refine kept.hearing.bound.trans ?_
      simp only [abort, List.length_append]
      exact Nat.le_add_right _ _
    · exact absurd (isOpen.symm.trans shut) (by decide)
    · exact absurd (isOpen.symm.trans shut) (by decide)
    · simp only [abort, queued]
      exact kept.acking.before isOpen
  unfold deliveryFailed at h
  split at h <;> try contradiction
  · rename_i bytes phase
    cases Option.some.inj h
    exact aborts (busyOpen kept (by rw [phase]; rfl)) _
  · rename_i phase
    cases Option.some.inj h
    have closed := aborts (busyOpen kept (by rw [phase]; rfl)) []
    rw [List.append_nil] at closed
    exact closed

/- What an event of the side itself leaves. -/
theorem keptAct {peer : Side} {event : Event} (kept : Kept heard x) (alive : x.result = none) (other : event ≠ .arrive)
    (h : x.act peer event = some x') : Kept heard x' := by
  cases event with
  | command => exact keptCommand kept (idlePending (ifSome h).1) (ifSome h).2
  | tick => exact keptTick kept (idlePending (ifSome h).1) (ifSome h).2
  | readData bytes =>
    obtain ⟨free,read⟩ := ifSome h
    unfold readData at read
    split at read <;> try contradiction
    rename_i enabled
    cases Option.some.inj read
    have isOpen : x.localOpen = true := by
      simp only [Bool.and_eq_true] at enabled
      exact enabled.1.1.2
    refine keptBegin (x := { x with consumed := x.consumed ++ bytes }) ⟨kept.hearing,kept.acking,kept.reporting,kept.sending⟩
      (idlePending free) rfl rfl fun fin => ?_
    exact absurd ((idleEnded kept (idlePending free) fin).2.symm.trans isOpen) (by decide)
  | readEnd reason => exact keptReadEnd kept (idlePending (ifSome h).1) (ifSome h).2
  | readFailed error answer =>
    obtain ⟨free,read⟩ := ifSome h
    unfold readFailed at read
    split at read <;> try contradiction
    cases Option.some.inj read
    exact keptBegin kept (idlePending free) rfl rfl fun _ => rfl
  | emit => exact keptEmit kept h
  | written => exact keptWritten kept h
  | writeFailed error => exact keptWriteFailed kept h
  | sealFailed error => exact keptSealFailed kept h
  | arrive => exact absurd rfl other
  | readBroken error =>
    obtain ⟨_,broken⟩ := ifSome h
    unfold readBroken at broken
    split at broken <;> try contradiction
    cases Option.some.inj broken
    exact keptFail kept _
  | noiseFailed message =>
    obtain ⟨_,failed⟩ := ifSome h
    cases Option.some.inj failed
    exact keptFail kept _
  | delivered => exact keptDelivered kept alive h
  | deliveryFailed error answer count => exact keptDeliveryFailed kept h
  | inboundReturns =>
    have h : x.inboundReturns = some x' := h
    unfold inboundReturns at h
    split at h <;> try contradiction
    · cases Option.some.inj h
      exact keptFail kept _
    · cases Option.some.inj h
      exact keptFail kept _
  | watchdogReturns =>
    have h : x.watchdogReturns = some x' := h
    unfold watchdogReturns at h
    split at h <;> try contradiction
    cases Option.some.inj h
    exact ⟨kept.hearing,kept.acking,kept.reporting,kept.sending⟩
  | watchdogExpires =>
    have h : x.watchdogExpires = some x' := h
    unfold watchdogExpires at h
    split at h <;> try contradiction
    cases Option.some.inj h
    exact keptFail kept _
  | join =>
    have h : x.join = some x' := h
    unfold join at h
    split at h <;> try contradiction
    cases Option.some.inj h
    exact ⟨⟨kept.hearing.bound,kept.hearing.exact,fun _ none => (nomatch none),kept.hearing.shut⟩,kept.acking,kept.reporting,
      kept.sending⟩
  | cut position => contradiction

theorem applicationAppend (heard : List Bytes) (raw : Bytes) : application (heard ++ [raw]) = application heard ++ application [raw] :=
  List.flatMap_append

theorem applicationControl {raw : Bytes} (control : ¬ isDataRecord raw) : application [raw] = [] := by
  cases raw with
  | nil => rfl
  | cons tag body =>
    have other : tag ≠ recData := fun same => control (by rw [isDataRecord, same]; rfl)
    simp [application, other]

/- A record has come in behind the peer's FIN. -/
theorem endedLater (raw : Bytes) (ended : Ended heard x.output x.received) : Ended (heard ++ [raw]) x.output x.received := by
  obtain ⟨before,body,after,split,fin,output⟩ := ended
  exact ⟨before,body,after ++ [raw],by rw [split, List.append_assoc]; rfl,fin,output⟩

theorem heardFail (kept : Kept heard x) (raw : Bytes) (error : PumpError) : Kept (heard ++ [raw]) (x.fail error) := by
  refine ⟨⟨kept.hearing.bound,kept.hearing.exact,fun _ none => (nomatch none),fun shut => ?_⟩,kept.acking,kept.reporting,kept.sending⟩
  obtain ⟨phase,ended⟩ := kept.hearing.shut shut
  exact ⟨phase,@endedLater _ x raw ended⟩

/- A record that the side takes note of goes to the phase it asks for. -/
theorem heardTaken (kept : Kept heard x) (alive : x.result = none) (reading : x.phase = .reading) {raw : Bytes} {phase : Phase}
    {confirmed : Bool} (taking : x.theirFin = false → x.output = application heard → Taking (heard ++ [raw]) x.output x.received phase)
    (shut : x.theirFin = true → phase = .reading ∨ ∃ error, phase = .leaving error) :
    Kept (heard ++ [raw]) { x with phase := phase, confirmed := confirmed } := by
  have exact' := steadyExact kept (by rw [reading]; simp)
  refine ⟨⟨kept.hearing.bound,.inr exact',fun isOpen _ => taking isOpen ?_,fun fin => ?_⟩,kept.acking,kept.reporting,kept.sending⟩
  · have taken := kept.hearing.open' isOpen alive
    rwa [reading] at taken
  · exact ⟨shut fin,endedLater raw (kept.hearing.shut fin).2⟩

theorem heardControl (kept : Kept heard x) (alive : x.result = none) (reading : x.phase = .reading) {raw : Bytes}
    (control : ¬ isDataRecord raw) (confirmed : Bool) : Kept (heard ++ [raw]) { x with confirmed := confirmed } := by
  have taken := @heardTaken _ _ kept alive reading raw .reading confirmed
    (fun _ output => by rw [Taking, applicationAppend, applicationControl control, List.append_nil, output])
    (fun _ => .inl rfl)
  rw [← reading] at taken
  exact taken

theorem heardData (kept : Kept heard x) (alive : x.result = none) (reading : x.phase = .reading) (body : Bytes) :
    Kept (heard ++ [recData :: body]) (x.receiveData body) := by
  unfold receiveData
  split
  · exact heardFail kept _ _
  · rename_i isOpen
    refine @heardTaken _ _ kept alive reading _ (.delivering body) x.confirmed (fun _ output => ?_) (fun shut => absurd shut isOpen)
    rw [Taking, applicationAppend, output]
    simp [application]

theorem heardFin (kept : Kept heard x) (alive : x.result = none) (reading : x.phase = .reading) (body : Bytes) :
    Kept (heard ++ [recFin :: body]) (x.receiveFin body) := by
  have control : ¬ isDataRecord (recFin :: body) := by simp [isDataRecord, recFin, recData]
  unfold receiveFin
  split
  · exact heardFail kept _ _
  · rename_i length
    dsimp only
    split
    · exact @heardTaken _ _ kept alive reading _ (.leaving _) x.confirmed (fun _ _ => trivial) (fun _ => .inr ⟨_,rfl⟩)
    · rename_i normal
      split
      · exact heardFail kept _ _
      · rename_i isOpen
        split
        · exact heardFail kept _ _
        · rename_i count
          exact @heardTaken _ _ kept alive reading _ .closing x.confirmed
            (fun _ output => ⟨heard,body,rfl,⟨not_not.mp length,not_not.mp normal,not_not.mp count⟩,output⟩)
            (fun shut => absurd shut isOpen)

theorem heardFinAck (kept : Kept heard x) (alive : x.result = none) (reading : x.phase = .reading) (body : Bytes) :
    Kept (heard ++ [recFinAck :: body]) (x.receiveFinAck body) := by
  have control : ¬ isDataRecord (recFinAck :: body) := by simp [isDataRecord, recFinAck, recData]
  unfold receiveFinAck
  split
  · exact heardFail kept _ _
  · split
    · exact heardFail kept _ _
    · split
      · exact heardFail kept _ _
      · dsimp only
        split
        · exact heardFail kept _ _
        · exact heardControl kept alive reading control true

theorem heardRecord (kept : Kept heard x) (alive : x.result = none) (reading : x.phase = .reading) (raw : Bytes) :
    Kept (heard ++ [raw]) (x.receive raw) := by
  cases raw with
  | nil => exact heardFail kept _ _
  | cons tag body =>
    rw [receive]
    by_cases data : tag = recData
    · rw [if_pos data, data]
      exact heardData kept alive reading body
    · have control : ¬ isDataRecord (tag :: body) := by simpa [isDataRecord] using data
      rw [if_neg data]
      by_cases fin : tag = recFin
      · rw [if_pos fin, fin]
        exact heardFin kept alive reading body
      · rw [if_neg fin]
        by_cases finAck : tag = recFinAck
        · rw [if_pos finAck, finAck]
          exact heardFinAck kept alive reading body
        · rw [if_neg finAck]
          split
          · unfold receiveProgress
            split
            · exact heardFail kept _ _
            · exact heardControl kept alive reading control x.confirmed
          · exact heardFail kept _ _

theorem keptOwn {peer : Side} {event : Event} (kept : Kept heard x) (other : event ≠ .arrive) (h : x.step peer event = some x') :
    Kept heard x' := by
  rcases stepCases h with ⟨position,_,_,rfl⟩ | ⟨alive,moves⟩
  · exact ⟨kept.hearing,kept.acking,kept.reporting,kept.sending⟩
  · exact keptAct kept alive other moves

theorem reachesKept {finAckIdle : Nat} (reaches : Reaches finAckIdle heard x) : Kept heard x := by
  induction reaches with
  | start => exact keptStart finAckIdle
  | own peer event _ other moves kept => exact keptOwn kept other moves
  | record raw _ alive reads kept => exact heardRecord kept alive (atReadPhase reads) raw

/- DATA behind a FIN is an error, whatever became of the FIN. -/
structure Refusing (heard : List Bytes) (x : Side) : Prop where
  taking : x.theirFin = false → x.phase.takes = true → x.result = none → ∀ body, recFin :: body ∉ heard
  late : ∀ before body after, heard = before ++ (recFin :: body) :: after → ∀ raw ∈ after, isDataRecord raw → Failed x.result

theorem actPhase {peer : Side} {event : Event} (other : event ≠ .arrive) (h : x.act peer event = some x') :
    x'.theirFin = false → x'.phase.takes = true → x.theirFin = false ∧ x.phase.takes = true := by
  cases event with
  | arrive => exact absurd rfl other
  | written =>
    change x.written = some x' at h
    unfold written at h
    split at h <;> try contradiction
    split at h <;> try contradiction
    cases Option.some.inj h
    rename_i write _ _
    cases write <;> exact And.intro
  | delivered =>
    change x.delivered = some x' at h
    unfold delivered at h
    split at h <;> try contradiction
    · rename_i phase
      cases Option.some.inj h
      rw [phase]
      exact And.intro
    · cases Option.some.inj h
      intro shut
      contradiction
  | deliveryFailed error answer count =>
    change x.deliveryFailed error answer count = some x' at h
    unfold deliveryFailed at h
    split at h <;> try contradiction
    all_goals
      cases Option.some.inj h
      intro _ takes
      contradiction
  | _ =>
    unfold act command tick readData readEnd readFailed emit writeFailed sealFailed readBroken
      inboundReturns watchdogReturns watchdogExpires join at h
    dsimp only at h
    repeat' split at h
    all_goals first
      | contradiction
      | cases Option.some.inj h; exact And.intro

theorem refusingOwn {peer : Side} {event : Event} (refusing : Refusing heard x) (other : event ≠ .arrive)
    (h : x.step peer event = some x') : Refusing heard x' := by
  rcases stepCases h with ⟨position,_,_,rfl⟩ | ⟨alive,moves⟩
  · exact ⟨refusing.taking,refusing.late⟩
  · refine ⟨fun isOpen takes _ => ?_,fun before body after split raw mem data => ?_⟩
    · obtain ⟨isOpen,takes⟩ := actPhase other moves isOpen takes
      exact refusing.taking isOpen takes alive
    · obtain ⟨error,failed⟩ := refusing.late before body after split raw mem data
      rw [alive] at failed
      contradiction

theorem receiveFlag (x : Side) (raw : Bytes) : (x.receive raw).theirFin = x.theirFin := by
  cases raw with
  | nil => rfl
  | cons tag body =>
    unfold receive receiveData receiveFin receiveFinAck receiveProgress
    dsimp only
    repeat' split
    all_goals rfl

theorem finTaken {body : Bytes} (alive : (x.receive (recFin :: body)).result = none) :
    (x.receive (recFin :: body)).phase.takes = false := by
  have taken : x.receive (recFin :: body) = x.receiveFin body := rfl
  rw [taken] at alive ⊢
  unfold receiveFin at alive ⊢
  dsimp only at alive ⊢
  repeat' split
  all_goals first
    | rfl
    | simp_all [protocol, fail]

theorem dataLate {raw : Bytes} (shut : x.theirFin = true) (data : isDataRecord raw) : Failed (x.receive raw).result := by
  cases raw with
  | nil => contradiction
  | cons tag body =>
    cases Option.some.inj data
    have taken : x.receive (recData :: body) = x.receiveData body := rfl
    rw [taken, receiveData, if_pos shut]
    exact ⟨_,rfl⟩

theorem refusingRecord (refusing : Refusing heard x) (alive : x.result = none) (reading : x.phase = .reading) (raw : Bytes) :
    Refusing (heard ++ [raw]) (x.receive raw) := by
  have fresh (isOpen : x.theirFin = false) : ∀ body, recFin :: body ∉ heard :=
    refusing.taking isOpen (by rw [reading]; rfl) alive
  refine ⟨fun isOpen takes next body mem => ?_,fun before body after split raw' mem data => ?_⟩
  · rw [receiveFlag] at isOpen
    rcases List.mem_append.mp mem with earlier | last
    · exact fresh isOpen body earlier
    · cases List.mem_singleton.mp last
      rw [finTaken next] at takes
      contradiction
  · rcases List.eq_nil_or_concat after with rfl | ⟨earlier,last,rfl⟩
    · exact absurd mem List.not_mem_nil
    · rw [List.concat_eq_append, ← List.cons_append, ← List.append_assoc] at split
      obtain ⟨parted,same⟩ := List.append_inj' split rfl
      cases List.singleton_inj.mp same
      rw [List.concat_eq_append] at mem
      rcases List.mem_append.mp mem with behind | last
      · obtain ⟨error,failed⟩ := refusing.late before body earlier parted raw' behind data
        rw [alive] at failed
        contradiction
      · cases List.mem_singleton.mp last
        cases shut : x.theirFin with
        | true => exact dataLate shut data
        | false => exact absurd (parted ▸ List.mem_append_right _ List.mem_cons_self) (fresh shut body)

theorem reachesRefusing {finAckIdle : Nat} (reaches : Reaches finAckIdle heard x) : Refusing heard x := by
  induction reaches with
  | start => exact ⟨fun _ _ _ _ => List.not_mem_nil,fun before body after split => by simp at split⟩
  | own peer event _ other moves refusing => exact refusingOwn refusing other moves
  | record raw _ alive reads refusing => exact refusingRecord refusing alive (atReadPhase reads) raw

/- A FIN_ACK at a read passes for one count only, once, behind this side's own FIN. -/
theorem finAckPasses (alive : x.result = none) (body : Bytes) : (x.receive (recFinAck :: body)).result = none ↔
    body.length = 8 ∧ x.finSent = true ∧ x.confirmed = false ∧ u64At body = x.sent := by
  have taken : x.receive (recFinAck :: body) = x.receiveFinAck body := rfl
  rw [taken, receiveFinAck]
  by_cases length : body.length = 8
  · by_cases fin : x.finSent = true
    · by_cases confirmed : x.confirmed = true
      · simp [length, fin, confirmed, protocol, fail]
      · by_cases count : u64At body = x.sent
        · simp [length, fin, confirmed, count, alive]
        · simp [length, fin, confirmed, count, fail]
    · simp [length, fin, protocol, fail]
  · simp [length, protocol, fail]

end Side

/- What a side accepts and says, of the records `heard` so far. -/
structure Disciplined (heard : List Bytes) (x : Side) : Prop where
  late : ∀ before body after, heard = before ++ (recFin :: body) :: after → ∀ raw ∈ after, isDataRecord raw → Failed x.result
  ended : x.theirFin = true → ∃ before body after, heard = before ++ (recFin :: body) :: after ∧
    EndsAt body (.ofNat x.output.length) ∧ x.output = application before
  acknowledged : x.wrote.flatMap finAckCount = [] ∨
    x.theirFin = true ∧ x.wrote.flatMap finAckCount = [.ofNat x.output.length]
  rising : (x.wrote.flatMap progressCount).Pairwise (· < ·)
  delivered : ∀ v ∈ x.wrote.flatMap progressCount, v.toNat ≤ x.output.length
  confirmation : x.result = none → ∀ body, (x.receive (recFinAck :: body)).result = none ↔
    body.length = 8 ∧ x.finSent = true ∧ x.confirmed = false ∧ u64At body = x.sent
  own : x.finSent = true → x.inputEnded = true ∧ x.sent = .ofNat (payload x.wrote).length ∧
    x.sent.toNat ≤ (payload x.wrote).length ∧ (x.localOpen = false ∨ x.pending = some .fin)

end CadsTunnel.Delivery
