import CadsTunnel.DeliveryPump

/-! What every side keeps true of itself, whatever its local side, the transport and
the peer do: the records it wrote carry what it read from its input, nothing
follows its FIN, an acknowledgement is only ever written after the peer's FIN was
delivered, and its output is the payload of the records it has seen. -/
namespace CadsTunnel.Delivery
open Words

def HasFin (records : List Record) : Prop := ∃ sent reason, .fin sent reason ∈ records

/- The bytes of a DATA record that is being written. -/
def inFlight : Option Write → Bytes
  | some (.data bytes) => bytes
  | _ => []

/- No DATA record can follow. -/
def Closed (pending : Option Write) (localOpen : Bool) : Prop :=
  (∀ bytes, pending ≠ some (.data bytes)) ∧
  (localOpen = false ∨ pending = some .fin ∨ ∃ reason error, pending = some (.abort reason error))

def Phase.isAborting : Phase → Bool
  | .aborting _ => true
  | _ => false

/- A FIN that the peer reads as normal is owed to the end of the input, or belongs to
a side that could not deliver and will never acknowledge. -/
def Owed (inputEnded : Bool) (phase : Phase) (reason : FinReason) : Prop :=
  reason.toByte = 0 → inputEnded = true ∨ phase.isAborting = true

def Delivers (output : Bytes) (seen : List Record) : Phase → Prop
  | .reading => output = payload seen
  | .delivering bytes => output ++ bytes = payload seen
  | .closing => ∃ p sent reason, seen = p ++ [.fin sent reason] ∧ reason.toByte = 0 ∧ output = payload p
  | .aborting _ | .leaving _ => True

structure Writes (wrote : List Record) (pending : Option Write) (emitted : Bool) (consumed : Bytes) (sent : UInt64)
    (localOpen inputEnded : Bool) : Prop where
  payload : payload wrote ++ (if emitted then [] else inFlight pending) = consumed
  count : sent + .ofNat (inFlight pending).length = .ofNat consumed.length
  closed : HasFin wrote → Closed pending localOpen
  last : ∀ p q, wrote = p ++ q → HasFin p → Delivery.payload q = []
  shut : localOpen = false ∨ pending = some .fin → inputEnded = true

structure Signals (wrote : List Record) (pending : Option Write) (queue : List ToOutbound) (theirFin : Bool)
    (phase : Phase) (inputEnded : Bool) : Prop where
  finWrote : ∀ sent reason, .fin sent reason ∈ wrote → Owed inputEnded phase reason
  finPending : ∀ reason error, pending = some (.abort reason error) → Owed inputEnded phase reason
  abortQueued : ∀ reason error, .abort reason error ∈ queue → phase.isAborting = true
  ackWrote : ∀ received, .finAck received ∈ wrote → theirFin = true
  ackPending : ∀ received, pending = some (.finAck received) → theirFin = true
  ackQueued : ∀ received, .finAck received ∈ queue → theirFin = true
  abortOpen : phase.isAborting = true → theirFin = false

structure Reads (alive : Bool) (output : Bytes) (seen : List Record) (phase : Phase) (theirFin confirmed : Bool)
    (received : UInt64) : Prop where
  delivers : alive = true → Delivers output seen phase
  busy : phase.isBusy = true → theirFin = false
  fin : theirFin = true → ∃ p sent reason q, seen = p ++ .fin sent reason :: q ∧ reason.toByte = 0 ∧ output = payload p
  ack : confirmed = true → ∃ received, .finAck received ∈ seen
  count : phase.isAborting = true ∨ received = .ofNat output.length

structure Sound (x : Side) : Prop where
  writes : Writes x.wrote x.pending x.emitted x.consumed x.sent x.localOpen x.inputEnded
  signals : Signals x.wrote x.pending x.queue x.theirFin x.phase x.inputEnded
  reads : Reads x.result.isNone x.output x.seen x.phase x.theirFin x.confirmed x.received
  bound : ∀ k, x.cut = some k → x.seen.length ≤ k
  joined : ∀ report, x.result = some (.ok report) →
    x.outboundDone = true ∧ x.inboundDone = true ∧ report = ⟨x.sent,x.received⟩

theorem lastControl {records : List Record} {r : Record} (control : r.isData = false)
    (last : ∀ p q, records = p ++ q → HasFin p → payload q = []) :
    ∀ p q, records ++ [r] = p ++ q → HasFin p → payload q = [] := by
  intro p q same fin
  rcases List.eq_nil_or_concat q with rfl | ⟨rest,tail,rfl⟩
  · rfl
  · rw [List.concat_eq_append, ← List.append_assoc] at same
    obtain ⟨front,back⟩ := List.append_inj' same rfl
    cases back
    rw [List.concat_eq_append, payloadControl rest control]
    exact last p rest front fin

theorem finAppend {records : List Record} {r : Record} (other : r.isFin = false) (fin : HasFin (records ++ [r])) :
    HasFin records := by
  obtain ⟨sent,reason,mem⟩ := fin
  rcases List.mem_append.mp mem with old | new
  · exact ⟨sent,reason,old⟩
  · rw [← List.mem_singleton.mp new] at other
    contradiction

/- The one event that breaks the meaning of a FIN: reading the local input fails and
the caller answers with the unknown reason whose byte is that of a normal end. -/
def Event.masksFailure : Event → Bool
  | .readFailed _ answer => decide (answer = .unknown 0)
  | _ => false

namespace Side
variable {x x' : Side}

theorem soundStart (finAckIdle : Nat) : Sound (start finAckIdle) where
  writes := by
    refine ⟨rfl,by simp [start, inFlight],by simp [start, HasFin],?_,by simp [start]⟩
    intro p q same fin
    obtain ⟨_,_,mem⟩ := fin
    have empty : p = [] := (List.append_eq_nil_iff.mp same.symm).1
    simp [empty] at mem
  signals := by constructor <;> simp [start, Phase.isAborting]
  reads := by constructor <;> simp [start, Phase.isAborting, Phase.isBusy, Delivers, payload]
  bound := by simp [start]
  joined := by simp [start]

theorem soundFail (sound : Sound x) (error : PumpError) : Sound (x.fail error) where
  writes := sound.writes
  signals := sound.signals
  reads := ⟨by simp [fail],sound.reads.busy,sound.reads.fin,sound.reads.ack,sound.reads.count⟩
  bound := sound.bound
  joined := by simp [fail]

/- A side that has written a FIN and waits for no write reads its local side no more. -/
theorem idleShut (sound : Sound x) (idle : x.pending = none) (fin : HasFin x.wrote) : x.localOpen = false := by
  rcases (sound.writes.closed fin).2 with shut | pending | ⟨_,_,pending⟩
  · exact shut
  · rw [idle] at pending
    contradiction
  · rw [idle] at pending
    contradiction

theorem steadyCount (sound : Sound x) (steady : x.phase.isAborting = false) : x.received = .ofNat x.output.length := by
  rcases sound.reads.count with aborting | count
  · rw [steady] at aborting
    contradiction
  · exact count

/- The outbound future starts a write that is not DATA. -/
theorem writesBegin (sound : Sound x) (idle : x.pending = none) {write : Write} (control : ∀ bytes, write ≠ .data bytes)
    (ended : write = .fin → x.inputEnded = true) :
    Writes x.wrote (some write) false x.consumed x.sent x.localOpen x.inputEnded := by
  have silent : inFlight (some write) = [] := by
    cases write with
    | data bytes => exact absurd rfl (control bytes)
    | _ => rfl
  have payload := sound.writes.payload
  have count := sound.writes.count
  rw [idle] at payload count
  refine ⟨?_,?_,?_,sound.writes.last,?_⟩
  · rw [silent]
    simpa [inFlight] using payload
  · rw [silent]
    exact count
  · intro fin
    exact ⟨fun bytes same => control bytes (Option.some.inj same),.inl (idleShut sound idle fin)⟩
  · intro closed
    rcases closed with shut | same
    · exact sound.writes.shut (.inl shut)
    · exact ended (Option.some.inj same)

theorem joinedLater (alive : x.result = none) : ∀ report, x.result = some (.ok report) →
    x.outboundDone = true ∧ x.inboundDone = true ∧ report = ⟨x.sent,x.received⟩ := by
  intro report ok
  rw [alive] at ok
  contradiction

theorem soundBegin (sound : Sound x) (alive : x.result = none) (idle : x.pending = none) {write : Write}
    (control : ∀ bytes, write ≠ .data bytes) (ended : write = .fin → x.inputEnded = true)
    (owed : ∀ reason error, write = .abort reason error → Owed x.inputEnded x.phase reason)
    (acked : ∀ received, write = .finAck received → x.theirFin = true) : Sound (x.beginWrite write) where
  writes := writesBegin sound idle control ended
  signals := { sound.signals with
    finPending := fun reason error same => owed reason error (Option.some.inj same)
    ackPending := fun received same => acked received (Option.some.inj same) }
  reads := sound.reads
  bound := sound.bound
  joined := joinedLater alive

theorem soundPop (sound : Sound x) {item : ToOutbound} {rest : List ToOutbound} (queued : x.queue = item :: rest) :
    Sound { x with queue := rest } := { sound with
  signals := { sound.signals with
    abortQueued := fun r e mem => sound.signals.abortQueued r e (queued ▸ List.mem_cons_of_mem item mem)
    ackQueued := fun n mem => sound.signals.ackQueued n (queued ▸ List.mem_cons_of_mem item mem) } }

theorem soundCommand (sound : Sound x) (alive : x.result = none) (idle : x.pending = none)
    (h : x.command = some x') : Sound x' := by
  unfold command at h
  split at h
  · rename_i received rest queued
    cases Option.some.inj h
    have acked := sound.signals.ackQueued received (queued ▸ List.mem_cons_self)
    exact soundBegin (soundPop sound queued) alive idle (by simp) (by simp) (by simp) (fun _ _ => acked)
  · rename_i reason error rest queued
    cases Option.some.inj h
    have aborting := sound.signals.abortQueued reason error (queued ▸ List.mem_cons_self)
    exact soundBegin (soundPop sound queued) alive idle (by simp) (by simp) (fun _ _ _ _ => .inr aborting) (by simp)
  · contradiction

theorem soundTick (sound : Sound x) (alive : x.result = none) (idle : x.pending = none)
    (h : x.tick = some x') : Sound x' := by
  unfold tick at h
  split at h <;> try contradiction
  split at h
  · cases Option.some.inj h
    exact soundBegin sound alive idle (by simp) (by simp) (by simp) (by simp)
  · cases Option.some.inj h
    exact sound

/- A side that may still read has written no FIN. -/
theorem openNoFin (sound : Sound x) (idle : x.pending = none) (isOpen : x.localOpen = true) : ¬ HasFin x.wrote := by
  intro fin
  have shut := idleShut sound idle fin
  rw [isOpen] at shut
  contradiction

theorem soundReadData {bytes : Bytes} (sound : Sound x) (alive : x.result = none) (idle : x.pending = none)
    (h : x.readData bytes = some x') : Sound x' := by
  unfold readData at h
  split at h <;> try contradiction
  rename_i enabled
  cases Option.some.inj h
  simp only [Bool.and_eq_true] at enabled
  have isOpen : x.localOpen = true := enabled.1.1.2
  have noFin := openNoFin sound idle isOpen
  have payload := sound.writes.payload
  have count := sound.writes.count
  rw [idle] at payload count
  refine ⟨⟨?_,?_,fun fin => absurd fin noFin,sound.writes.last,?_⟩,?_,sound.reads,sound.bound,joinedLater alive⟩
  · simp only [inFlight, ite_self, List.append_nil] at payload
    simp only [beginWrite, Bool.false_eq_true, if_false, inFlight, payload]
  · have exact : x.sent = .ofNat x.consumed.length := by simpa [inFlight] using count
    simp only [beginWrite, inFlight, List.length_append, UInt64.ofNat_add, exact]
  · intro closed
    rcases closed with shut | pending
    · exact absurd shut (by simp [beginWrite, isOpen])
    · simp [beginWrite] at pending
  · exact { sound.signals with
      finPending := by simp [beginWrite]
      ackPending := by simp [beginWrite] }

theorem soundInputEnded (sound : Sound x) : Sound { x with inputEnded := true } := { sound with
  writes := { sound.writes with shut := fun _ => rfl }
  signals := { sound.signals with
    finWrote := fun _ _ _ _ => .inl rfl
    finPending := fun _ _ _ _ => .inl rfl } }

theorem soundReadEnd {reason : FinReason} (sound : Sound x) (alive : x.result = none) (idle : x.pending = none)
    (h : x.readEnd reason = some x') : Sound x' := by
  unfold readEnd at h
  split at h <;> try contradiction
  have ended := soundInputEnded sound
  dsimp only at h
  split at h
  · cases Option.some.inj h
    exact soundBegin ended alive idle (by simp) (by simp) (fun _ _ _ _ => .inl rfl) (by simp)
  · cases Option.some.inj h
    have flagged : Sound { x with inputEnded := true, finSent := true } :=
      ⟨ended.writes,ended.signals,ended.reads,ended.bound,joinedLater alive⟩
    exact soundBegin flagged alive idle (by simp) (fun _ => rfl) (by simp) (by simp)

theorem soundReadFailed {error : IoError} {answer : FinReason} (sound : Sound x) (alive : x.result = none)
    (idle : x.pending = none) (named : answer ≠ .unknown 0) (h : x.readFailed error answer = some x') : Sound x' := by
  unfold readFailed at h
  split at h <;> try contradiction
  cases Option.some.inj h
  refine soundBegin sound alive idle (by simp) (by simp) ?_ (by simp)
  intro reason _ same zero
  cases same
  exact absurd zero (FinReason.failureByte named)

/- A control record goes on the wire. -/
theorem writesEmit (sound : Sound x) {write : Write} (pending : x.pending = some write)
    (control : (x.record write).isData = false) (closed : (x.record write).isFin = true → Closed x.pending x.localOpen) :
    Writes (x.wrote ++ [x.record write]) x.pending true x.consumed x.sent x.localOpen x.inputEnded := by
  have silent : inFlight x.pending = [] := by
    rw [pending]
    cases write with
    | data bytes => contradiction
    | _ => rfl
  have payload := sound.writes.payload
  rw [silent, ite_self, List.append_nil] at payload
  refine ⟨?_,sound.writes.count,?_,lastControl control sound.writes.last,sound.writes.shut⟩
  · rw [payloadControl x.wrote control, payload]
    simp
  · intro fin
    cases kind : (x.record write).isFin with
    | true => exact closed kind
    | false => exact sound.writes.closed (finAppend kind fin)

theorem soundEmit (sound : Sound x) (alive : x.result = none) (h : x.emit = some x') : Sound x' := by
  unfold emit at h
  split at h <;> try contradiction
  rename_i write pending
  split at h <;> try contradiction
  rename_i fresh
  cases Option.some.inj h
  refine ⟨?_,?_,sound.reads,sound.bound,joinedLater alive⟩
  · cases write with
    | data bytes =>
      have noFin : ¬ HasFin x.wrote := fun fin => (sound.writes.closed fin).1 bytes pending
      have noFinNow : ¬ HasFin (x.wrote ++ [.data bytes]) := fun fin => noFin (finAppend rfl fin)
      have payload := sound.writes.payload
      rw [if_neg fresh, pending, inFlight] at payload
      refine ⟨?_,sound.writes.count,fun fin => absurd fin noFinNow,?_,sound.writes.shut⟩
      · rw [record, payloadData, payload]
        simp
      · intro p q same fin
        obtain ⟨sent,reason,mem⟩ := fin
        have whole : x.wrote ++ [.data bytes] = p ++ q := same
        exact absurd ⟨sent,reason,whole ▸ List.mem_append_left q mem⟩ noFinNow
    | fin => exact writesEmit sound pending rfl (fun _ => by rw [pending]; exact ⟨by simp,.inr (.inl rfl)⟩)
    | finAck received => exact writesEmit sound pending rfl (by simp [record, Record.isFin])
    | progress delivered => exact writesEmit sound pending rfl (by simp [record, Record.isFin])
    | abort reason error =>
      exact writesEmit sound pending rfl (fun _ => by rw [pending]; exact ⟨by simp,.inr (.inr ⟨_,_,rfl⟩)⟩)
  · refine { sound.signals with finWrote := ?_, ackWrote := ?_ }
    · intro sent reason mem
      rcases List.mem_append.mp mem with old | new
      · exact sound.signals.finWrote sent reason old
      · cases write with
        | fin => exact fun _ => .inl (sound.writes.shut (.inr pending))
        | abort own error =>
          simp only [record, List.mem_singleton, Record.fin.injEq] at new
          rw [new.2]
          exact sound.signals.finPending own error pending
        | _ => simp [record] at new
    · intro received mem
      rcases List.mem_append.mp mem with old | new
      · exact sound.signals.ackWrote received old
      · cases write with
        | finAck own => exact sound.signals.ackPending own pending
        | _ => simp [record] at new

/- A write returns. -/
theorem soundReturn (sound : Sound x) (alive : x'.result = none) (pending : x'.pending = none)
    (same : x'.wrote = x.wrote ∧ x'.queue = x.queue ∧ x'.theirFin = x.theirFin ∧ x'.phase = x.phase ∧
      x'.inputEnded = x.inputEnded)
    (writes : Writes x'.wrote none x'.emitted x'.consumed x'.sent x'.localOpen x'.inputEnded)
    (reads : Reads x'.result.isNone x'.output x'.seen x'.phase x'.theirFin x'.confirmed x'.received)
    (bound : ∀ k, x'.cut = some k → x'.seen.length ≤ k) : Sound x' := by
  obtain ⟨wrote,queue,theirFin,phase,inputEnded⟩ := same
  refine ⟨pending ▸ writes,?_,reads,bound,joinedLater alive⟩
  rw [pending, wrote, queue, theirFin, phase, inputEnded]
  exact { sound.signals with finPending := by simp, ackPending := by simp }

theorem writesReturn (sound : Sound x) {write : Write} (pending : x.pending = some write)
    (control : inFlight (some write) = []) (other : write ≠ .fin) (steady : ∀ reason error, write ≠ .abort reason error) :
    Writes x.wrote none x.emitted x.consumed x.sent x.localOpen x.inputEnded := by
  have payload := sound.writes.payload
  have count := sound.writes.count
  rw [pending, control] at payload count
  refine ⟨payload,count,?_,sound.writes.last,?_⟩
  · intro fin
    rcases (sound.writes.closed fin).2 with shut | same | ⟨reason,error,same⟩
    · exact ⟨by simp,.inl shut⟩
    · exact absurd (Option.some.inj (pending.symm.trans same)) other
    · exact absurd (Option.some.inj (pending.symm.trans same)) (steady reason error)
  · intro closed
    rcases closed with shut | same
    · exact sound.writes.shut (.inl shut)
    · contradiction

theorem soundFinish (sound : Sound x) (alive : x.result = none) {write : Write} (pending : x.pending = some write)
    (emitted : x.emitted = true) : Sound (x.finish write) := by
  have payload := sound.writes.payload
  have count := sound.writes.count
  have closed := sound.writes.closed
  have shut := sound.writes.shut
  rw [pending] at payload count closed shut
  cases write with
  | data bytes =>
    refine soundReturn sound alive rfl ⟨rfl,rfl,rfl,rfl,rfl⟩ ?_ sound.reads sound.bound
    refine ⟨?_,?_,fun fin => absurd rfl ((closed fin).1 bytes),sound.writes.last,?_⟩
    · simpa [finish, emitted] using payload
    · simpa [finish, inFlight] using count
    · intro closed
      rcases closed with isShut | other
      · exact shut (.inl isShut)
      · contradiction
  | fin =>
    refine soundReturn sound alive rfl ⟨rfl,rfl,rfl,rfl,rfl⟩ ?_ sound.reads sound.bound
    exact ⟨payload,count,fun _ => ⟨by simp,.inl rfl⟩,sound.writes.last,fun _ => shut (.inr rfl)⟩
  | finAck received =>
    have writes := writesReturn sound pending rfl (by simp) (by simp)
    exact soundReturn sound alive rfl ⟨rfl,rfl,rfl,rfl,rfl⟩ writes sound.reads sound.bound
  | progress delivered =>
    have writes := writesReturn sound pending rfl (by simp) (by simp)
    exact soundReturn sound alive rfl ⟨rfl,rfl,rfl,rfl,rfl⟩ writes sound.reads sound.bound
  | abort reason error => exact soundFail sound error

theorem soundWritten (sound : Sound x) (alive : x.result = none) (h : x.written = some x') : Sound x' := by
  unfold written at h
  split at h <;> try contradiction
  rename_i write pending
  split at h <;> try contradiction
  rename_i emitted
  cases Option.some.inj h
  exact soundFinish sound alive pending emitted

theorem soundWriteFailed {error : IoError} (sound : Sound x) (h : x.writeFailed error = some x') : Sound x' := by
  unfold writeFailed at h
  split at h <;> try contradiction
  · cases Option.some.inj h
    exact soundFail sound _
  · cases Option.some.inj h
    exact soundFail sound _

theorem soundSealFailed {error : IoError} (sound : Sound x) (h : x.sealFailed error = some x') : Sound x' := by
  unfold sealFailed at h
  split at h <;> try contradiction
  split at h <;> try contradiction
  cases Option.some.inj h
  exact soundFail sound _

/- A side that waits for the next record, with the relay's cut not yet reached. -/
structure Waits (x : Side) : Prop where
  sound : Sound x
  alive : x.result = none
  reading : x.phase = .reading
  room : ∀ k, x.cut = some k → x.seen.length < k

theorem waitsOutput (waits : Waits x) : x.output = payload x.seen := by
  have delivers := waits.sound.reads.delivers (by rw [waits.alive]; rfl)
  rw [waits.reading] at delivers
  exact delivers

theorem signalsPhase (sound : Sound x) {phase : Phase} (same : x.phase.isAborting = phase.isAborting) :
    Signals x.wrote x.pending x.queue x.theirFin phase x.inputEnded := by
  have signals := sound.signals
  refine ⟨?_,?_,?_,signals.ackWrote,signals.ackPending,signals.ackQueued,?_⟩
  · intro sent reason mem zero
    rw [← same]
    exact signals.finWrote sent reason mem zero
  · intro reason error pending zero
    rw [← same]
    exact signals.finPending reason error pending zero
  · intro reason error mem
    rw [← same]
    exact signals.abortQueued reason error mem
  · rw [← same]
    exact signals.abortOpen

theorem waitsFin (waits : Waits x) (r : Record) (theirFin : x.theirFin = true) :
    ∃ p sent reason q, x.seen ++ [r] = p ++ .fin sent reason :: q ∧ reason.toByte = 0 ∧ x.output = payload p := by
  obtain ⟨p,sent,reason,q,same,zero,output⟩ := waits.sound.reads.fin theirFin
  exact ⟨p,sent,reason,q ++ [r],by rw [same, List.append_assoc]; rfl,zero,output⟩

theorem waitsAck (waits : Waits x) (r : Record) (confirmed : x.confirmed = true) :
    ∃ received, .finAck received ∈ x.seen ++ [r] := by
  obtain ⟨received,mem⟩ := waits.sound.reads.ack confirmed
  exact ⟨received,List.mem_append_left _ mem⟩

/- The side goes on in a phase that delivers what it has seen. -/
theorem soundSaw (waits : Waits x) (r : Record) (phase : Phase) (steady : phase.isAborting = false)
    (delivers : Delivers x.output (x.seen ++ [r]) phase) (busy : phase.isBusy = true → x.theirFin = false) :
    Sound { x with seen := x.seen ++ [r], phase := phase } where
  writes := waits.sound.writes
  signals := signalsPhase waits.sound (by rw [waits.reading, steady]; rfl)
  reads := by
    have count := steadyCount waits.sound (by rw [waits.reading]; rfl)
    exact ⟨fun _ => delivers,busy,waitsFin waits r,waitsAck waits r,.inr count⟩
  bound := fun k same => by
    simp only [List.length_append, List.length_singleton]
    exact waits.room k same
  joined := joinedLater waits.alive

theorem soundSawFail (waits : Waits x) (r : Record) (error : PumpError) :
    Sound ({ x with seen := x.seen ++ [r] }.fail error) where
  writes := waits.sound.writes
  signals := waits.sound.signals
  reads := ⟨by simp [fail],waits.sound.reads.busy,waitsFin waits r,waitsAck waits r,waits.sound.reads.count⟩
  bound := fun k same => by
    simp only [fail, List.length_append, List.length_singleton]
    exact waits.room k same
  joined := by simp [fail]

theorem soundSawData (waits : Waits x) (bytes : Bytes) :
    Sound ({ x with seen := x.seen ++ [Record.data bytes] }.receiveData bytes) := by
  unfold receiveData
  split
  · exact soundSawFail waits _ _
  · rename_i unfinished
    refine soundSaw waits _ (.delivering bytes) rfl ?_ (fun _ => by simpa using unfinished)
    rw [Delivers, payloadData, waitsOutput waits]

theorem soundSawFin (waits : Waits x) (sent : UInt64) (reason : FinReason) :
    Sound ({ x with seen := x.seen ++ [Record.fin sent reason] }.receiveFin (finBody sent reason)) := by
  unfold receiveFin
  rw [if_neg (by simp [finBodyLength]), finBodyReason]
  dsimp only
  split
  · exact soundSaw waits _ (.leaving _) rfl trivial (by simp [Phase.isBusy])
  · rename_i normal
    split
    · exact soundSawFail waits _ _
    · rename_i unfinished
      split
      · exact soundSawFail waits _ _
      · refine soundSaw waits _ .closing rfl ?_ (fun _ => by simpa using unfinished)
        exact ⟨x.seen,sent,reason,rfl,FinReason.fromByteNormal.mp (not_not.mp normal),waitsOutput waits⟩

theorem soundSawControl (waits : Waits x) (r : Record) (control : r.isData = false) :
    Sound { x with seen := x.seen ++ [r] } := by
  have steady := soundSaw waits r .reading rfl (by rw [Delivers, payloadControl _ control, waitsOutput waits])
    (by simp [Phase.isBusy])
  rw [← waits.reading] at steady
  exact steady

theorem soundSawFinAck (waits : Waits x) (received : UInt64) :
    Sound ({ x with seen := x.seen ++ [Record.finAck received] }.receiveFinAck (u64BE received)) := by
  have control := soundSawControl waits (.finAck received) rfl
  unfold receiveFinAck
  split
  · exact soundSawFail waits _ _
  · split
    · exact soundSawFail waits _ _
    · split
      · exact soundSawFail waits _ _
      · dsimp only
        split
        · exact soundSawFail waits _ _
        · exact { control with
            reads := { control.reads with ack := fun _ => ⟨received,List.mem_append_right _ List.mem_cons_self⟩ }
            joined := joinedLater waits.alive }

theorem soundSawProgress (waits : Waits x) (delivered : UInt64) :
    Sound ({ x with seen := x.seen ++ [Record.progress delivered] }.receiveProgress (u64BE delivered)) := by
  unfold receiveProgress
  split
  · exact soundSawFail waits _ _
  · exact soundSawControl waits _ rfl

theorem soundReceive (waits : Waits x) (r : Record) : Sound ({ x with seen := x.seen ++ [r] }.receive r.encode) := by
  cases r with
  | data bytes => exact soundSawData waits bytes
  | fin sent reason => exact soundSawFin waits sent reason
  | finAck received => exact soundSawFinAck waits received
  | progress delivered => exact soundSawProgress waits delivered

theorem soundArrive {peer : Side} (sound : Sound x) (alive : x.result = none) (reading : x.phase = .reading)
    (h : x.arrive peer = some x') : Sound x' := by
  unfold arrive at h
  split at h <;> try contradiction
  rename_i r next
  split at h <;> try contradiction
  rename_i room
  cases Option.some.inj h
  refine soundReceive ⟨sound,alive,reading,?_⟩ r
  intro k same
  simpa [same] using room

theorem soundDelivered (sound : Sound x) (alive : x.result = none) (h : x.delivered = some x') : Sound x' := by
  have delivers := sound.reads.delivers (by rw [alive]; rfl)
  have busy := sound.reads.busy
  unfold delivered at h
  split at h <;> try contradiction
  · rename_i bytes phase
    cases Option.some.inj h
    rw [phase] at delivers busy
    have unfinished := busy rfl
    refine ⟨sound.writes,signalsPhase sound (by rw [phase]; rfl),?_,sound.bound,joinedLater alive⟩
    refine ⟨fun _ => delivers,by simp [Phase.isBusy],?_,sound.reads.ack,.inr ?_⟩
    · intro theirFin
      rw [unfinished] at theirFin
      contradiction
    · rw [List.length_append, UInt64.ofNat_add, steadyCount sound (by rw [phase]; rfl)]
  · rename_i phase
    cases Option.some.inj h
    rw [phase] at delivers
    obtain ⟨p,sent,reason,same,zero,output⟩ := delivers
    have count := steadyCount sound (by rw [phase]; rfl)
    have signals := signalsPhase sound (show x.phase.isAborting = Phase.reading.isAborting by rw [phase]; rfl)
    refine ⟨sound.writes,?_,?_,sound.bound,joinedLater alive⟩
    · refine { signals with
        abortQueued := ?_
        ackWrote := fun _ _ => rfl
        ackPending := fun _ _ => rfl
        ackQueued := fun _ _ => rfl
        abortOpen := by simp [Phase.isAborting] }
      intro own error mem
      rcases List.mem_append.mp mem with old | new
      · exact signals.abortQueued own error old
      · simp at new
    · refine ⟨fun _ => ?_,by simp [Phase.isBusy],fun _ => ⟨p,sent,reason,[],same,zero,output⟩,sound.reads.ack,.inr count⟩
      rw [Delivers, same, payloadControl p rfl, output]

/- Whatever the local side took of the data, an abort owes the peer nothing more. -/
theorem soundAbort (sound : Sound x) (alive : x.result = none) (busy : x.phase.isBusy = true) (error : IoError)
    (answer : FinReason) (output : Bytes) : Sound ({ x with output := output }.abort error answer) := by
  have unfinished := sound.reads.busy busy
  refine ⟨sound.writes,?_,?_,sound.bound,joinedLater alive⟩
  · refine { sound.signals with
      finWrote := fun _ _ _ _ => .inr rfl
      finPending := fun _ _ _ _ => .inr rfl
      abortQueued := fun _ _ _ => rfl
      ackQueued := ?_
      abortOpen := fun _ => unfinished }
    intro received mem
    rcases List.mem_append.mp mem with old | new
    · exact sound.signals.ackQueued received old
    · simp at new
  · refine ⟨fun _ => trivial,by simp [abort, Phase.isBusy],?_,sound.reads.ack,.inl rfl⟩
    intro theirFin
    rw [show x.theirFin = true from theirFin] at unfinished
    contradiction

theorem soundDeliveryFailed {error : IoError} {answer : FinReason} {count : Nat} (sound : Sound x)
    (alive : x.result = none) (h : x.deliveryFailed error answer count = some x') : Sound x' := by
  unfold deliveryFailed at h
  split at h <;> try contradiction
  · rename_i bytes phase
    cases Option.some.inj h
    exact soundAbort sound alive (by rw [phase]; rfl) error answer _
  · rename_i phase
    cases Option.some.inj h
    exact soundAbort sound alive (by rw [phase]; rfl) error answer x.output

theorem soundInboundReturns (sound : Sound x) (h : x.inboundReturns = some x') : Sound x' := by
  unfold inboundReturns at h
  split at h <;> try contradiction
  · cases Option.some.inj h
    exact soundFail sound _
  · cases Option.some.inj h
    exact soundFail sound _

theorem soundWatchdogReturns (sound : Sound x) (alive : x.result = none) (h : x.watchdogReturns = some x') : Sound x' := by
  unfold watchdogReturns at h
  split at h <;> try contradiction
  cases Option.some.inj h
  exact ⟨sound.writes,sound.signals,sound.reads,sound.bound,joinedLater alive⟩

theorem soundWatchdogExpires (sound : Sound x) (h : x.watchdogExpires = some x') : Sound x' := by
  unfold watchdogExpires at h
  split at h <;> try contradiction
  cases Option.some.inj h
  exact soundFail sound _

theorem soundJoin (sound : Sound x) (h : x.join = some x') : Sound x' := by
  unfold join at h
  split at h <;> try contradiction
  rename_i done
  cases Option.some.inj h
  simp only [Bool.and_eq_true] at done
  refine ⟨sound.writes,sound.signals,?_,sound.bound,?_⟩
  · exact ⟨by simp,sound.reads.busy,sound.reads.fin,sound.reads.ack,sound.reads.count⟩
  · intro report ok
    cases ok
    exact ⟨done.1.1,done.1.2,rfl⟩

theorem idlePending (idle : x.idle = true) : x.pending = none := by
  simp only [Side.idle, Bool.and_eq_true, Option.isNone_iff_eq_none] at idle
  exact idle.1

theorem atReadPhase (atRead : x.atRead = true) : x.phase = .reading := by
  simp only [Side.atRead, Bool.and_eq_true, decide_eq_true_eq] at atRead
  exact atRead.1

theorem ifSome {c : Bool} {y : Option Side} (h : (if c then y else none) = some x') : c = true ∧ y = some x' := by
  split at h
  · rename_i enabled
    exact ⟨enabled,h⟩
  · contradiction

theorem soundAct {peer : Side} {event : Event} (sound : Sound x) (alive : x.result = none)
    (honest : event.masksFailure = false) (h : x.act peer event = some x') : Sound x' := by
  cases event with
  | command =>
    obtain ⟨idle,h⟩ := ifSome h
    exact soundCommand sound alive (idlePending idle) h
  | tick =>
    obtain ⟨idle,h⟩ := ifSome h
    exact soundTick sound alive (idlePending idle) h
  | readData bytes =>
    obtain ⟨idle,h⟩ := ifSome h
    exact soundReadData sound alive (idlePending idle) h
  | readEnd reason =>
    obtain ⟨idle,h⟩ := ifSome h
    exact soundReadEnd sound alive (idlePending idle) h
  | readFailed error answer =>
    obtain ⟨idle,h⟩ := ifSome h
    exact soundReadFailed sound alive (idlePending idle) (of_decide_eq_false honest) h
  | emit => exact soundEmit sound alive h
  | written => exact soundWritten sound alive h
  | writeFailed error => exact soundWriteFailed sound h
  | sealFailed error => exact soundSealFailed sound h
  | arrive =>
    obtain ⟨atRead,h⟩ := ifSome h
    exact soundArrive sound alive (atReadPhase atRead) h
  | readBroken error =>
    obtain ⟨_,h⟩ := ifSome h
    obtain ⟨_,h⟩ := ifSome h
    cases Option.some.inj h
    exact soundFail sound _
  | noiseFailed message =>
    obtain ⟨_,h⟩ := ifSome h
    cases Option.some.inj h
    exact soundFail sound _
  | delivered => exact soundDelivered sound alive h
  | deliveryFailed error answer count => exact soundDeliveryFailed sound alive h
  | inboundReturns => exact soundInboundReturns sound h
  | watchdogReturns => exact soundWatchdogReturns sound alive h
  | watchdogExpires => exact soundWatchdogExpires sound h
  | join => exact soundJoin sound h
  | cut position => contradiction

/- A step is a cut by the relay or an act of a side that has not returned. -/
theorem stepCases {peer : Side} {event : Event} (h : x.step peer event = some x') :
    (∃ position, event = .cut position ∧ x.seen.length ≤ position ∧ x' = { x with cut := some position }) ∨
    (x.result = none ∧ x.act peer event = some x') := by
  unfold step at h
  split at h
  · rename_i position
    unfold relayCut at h
    split at h <;> try contradiction
    rename_i enabled
    exact .inl ⟨position,rfl,enabled.2,(Option.some.inj h).symm⟩
  · split at h <;> try contradiction
    rename_i alive
    exact .inr ⟨alive,h⟩

theorem soundStep {peer : Side} {event : Event} (sound : Sound x) (honest : event.masksFailure = false)
    (h : x.step peer event = some x') : Sound x' := by
  rcases stepCases h with ⟨position,_,bound,rfl⟩ | ⟨alive,h⟩
  · refine { sound with bound := ?_ }
    intro k same
    cases same
    exact bound
  · exact soundAct sound alive honest h

end Side
end CadsTunnel.Delivery
