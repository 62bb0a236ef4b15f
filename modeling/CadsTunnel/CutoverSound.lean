import CadsTunnel.CutoverPump

/-! The two paths of one direction as one stream of records: nothing is sealed on the
relay after the marker and nothing on the direct session before it, and the reader
takes the relay up to the marker before it opens the first direct record. So the peer's
output is a prefix of the input whatever the order of events. -/
namespace CadsTunnel.Cutover
open Words

/- What a record carries to the local side, and what it carries besides. -/
def dataOf : Bytes → Bytes
  | [] => []
  | tag :: payload => if tag = pumpTagCutover ∨ tag = pumpTagControl then [] else payload

def controlOf : Bytes → Option PumpControl
  | [] => none
  | tag :: payload =>
    if tag = pumpTagCutover then some .cutover else if tag = pumpTagControl then some (.send payload) else none

def plain (records : List Bytes) : Bytes := records.flatMap dataOf
def controls (records : List Bytes) : List PumpControl := records.filterMap controlOf

@[simp] theorem plainAppend (first later : List Bytes) : plain (first ++ later) = plain first ++ plain later :=
  List.flatMap_append

@[simp] theorem controlsAppend (first later : List Bytes) : controls (first ++ later) = controls first ++ controls later :=
  List.filterMap_append

@[simp] theorem plainSingle (record : Bytes) : plain [record] = dataOf record := by simp [plain]
@[simp] theorem controlsSingle (record : Bytes) : controls [record] = (controlOf record).toList := by
  cases found : controlOf record <;> simp [controls, found]

@[simp] theorem plainNil : plain [] = [] := rfl
@[simp] theorem controlsNil : controls [] = [] := rfl

@[simp] theorem dataOfData (payload : Bytes) : dataOf (pumpTagData :: payload) = payload := rfl
@[simp] theorem dataOfControl (payload : Bytes) : dataOf (pumpTagControl :: payload) = [] := rfl
@[simp] theorem dataOfCutover (payload : Bytes) : dataOf (pumpTagCutover :: payload) = [] := rfl
@[simp] theorem controlOfData (payload : Bytes) : controlOf (pumpTagData :: payload) = none := rfl
@[simp] theorem controlOfControl (payload : Bytes) : controlOf (pumpTagControl :: payload) = some (.send payload) := rfl
@[simp] theorem controlOfCutover (payload : Bytes) : controlOf (pumpTagCutover :: payload) = some .cutover := rfl

/- What the driver queued before its first cutover. -/
def beforeCutover (instructions : List PumpControl) : List PumpControl := instructions.takeWhile (fun c => c ≠ .cutover)

theorem beforeCutoverSplit {first rest : List PumpControl} (none : .cutover ∉ first) :
    beforeCutover (first ++ .cutover :: rest) = first := by
  rw [beforeCutover, List.takeWhile_append_of_pos]
  · simp
  · intro c mem
    simp only [decide_eq_true_eq]
    exact fun same => none (same ▸ mem)

theorem beforeCutoverNext {instructions : List PumpControl} (cut : .cutover ∈ instructions) (later : List PumpControl) :
    beforeCutover (instructions ++ later) = beforeCutover instructions := by
  obtain ⟨first,rest,rfl,none⟩ := List.eq_append_cons_of_mem cut
  rw [List.append_assoc, List.cons_append, beforeCutoverSplit none, beforeCutoverSplit none]

namespace Outbound

/- The records after one more is sealed on a path. -/
def sealOn (sealed : Path → List Bytes) (path : Path) (record : Bytes) : Path → List Bytes :=
  Function.update sealed path (sealed path ++ [record])

@[simp] theorem sealOnRelayRelay (sealed : Path → List Bytes) (record : Bytes) :
    sealOn sealed .relay record .relay = sealed .relay ++ [record] := by simp [sealOn]
@[simp] theorem sealOnRelayDirect (sealed : Path → List Bytes) (record : Bytes) :
    sealOn sealed .relay record .direct = sealed .direct := by simp [sealOn]
@[simp] theorem sealOnDirectRelay (sealed : Path → List Bytes) (record : Bytes) :
    sealOn sealed .direct record .relay = sealed .relay := by simp [sealOn]
@[simp] theorem sealOnDirectDirect (sealed : Path → List Bytes) (record : Bytes) :
    sealOn sealed .direct record .direct = sealed .direct ++ [record] := by simp [sealOn]

theorem sealFrameCases {o next : Outbound} {path : Path} {tag : UInt8} {payload : Bytes} {failure : Option String}
    (h : o.sealFrame path tag payload failure = some next) :
    (∃ message, next = { o with phase := .failed message }) ∨
    next = { o with sealed := sealOn o.sealed path (tag :: payload), phase := .writing (tag = pumpTagCutover) } := by
  unfold sealFrame at h
  split at h
  case h_1 message => exact .inl ⟨message,(Option.some.inj h).symm⟩
  case h_2 =>
    split at h <;> try contradiction
    exact .inr (Option.some.inj h).symm

/- All that a step of the outbound loop can do. -/
inductive Moved (o : Outbound) : Outbound → Prop where
  | enqueue (instruction : PumpControl) :
    Moved o { o with control := o.control ++ [instruction], queued := o.queued ++ [instruction] }
  | close (gone opened : Bool) : Moved o { o with driverGone := gone, controlOpen := opened }
  | ask (rest : List PumpControl) (idle : o.phase = .select) (untaken : o.dirOutRx = true) (queue : o.control = .cutover :: rest) :
    Moved o { o with control := rest, dirOutRx := false, phase := .awaiting }
  | skip (rest : List PumpControl) (taken : o.dirOutRx = false) : Moved o { o with control := rest }
  | carry (record : Bytes) (control : List PumpControl) (idle : o.phase = .select) (unmarked : controlOf record ≠ some .cutover)
      (queue : o.control = (controlOf record).toList ++ control) :
    Moved o { o with
      control := control
      consumed := o.consumed ++ dataOf record
      sealed := sealOn o.sealed o.path record
      phase := .writing false }
  | mark (waits : o.phase = .awaiting) :
    Moved o { o with sealed := sealOn o.sealed .relay [pumpTagCutover], phase := .writing true }
  | giveUp (waits : o.phase = .awaiting) : Moved o { o with phase := .select }
  | finish (marker : Bool) (writes : o.phase = .writing marker) :
    Moved o { o with phase := .select, onDirect := o.onDirect || marker }
  | ended (idle : o.phase = .select) : Moved o { o with phase := .ended }
  | fail (control : List PumpControl) (consumed : Bytes) (message : String) (read : o.consumed <+: consumed) :
    Moved o { o with control := control, consumed := consumed, phase := .failed message }

theorem movedByFrame {o next : Outbound} (idle : o.phase = .select) (tag : UInt8) (payload : Bytes) (control : List PumpControl)
    {failure : Option String} (unmarked : tag ≠ pumpTagCutover)
    (queue : o.control = (controlOf (tag :: payload)).toList ++ control)
    (h : sealFrame { o with control := control, consumed := o.consumed ++ dataOf (tag :: payload) } o.path tag payload
      failure = some next) : Moved o next := by
  have before : controlOf (tag :: payload) ≠ some .cutover := by
    simp only [controlOf, unmarked, if_false]
    split <;> simp
  obtain ⟨message,rfl⟩ | rfl := sealFrameCases h
  · exact .fail control (o.consumed ++ dataOf (tag :: payload)) message (List.prefix_append _ _)
  · simpa only [unmarked, decide_false] using Moved.carry (tag :: payload) control idle before queue

theorem movedByControl {o next : Outbound} (idle : o.phase = .select) {failure : Option String}
    (h : o.takeControl failure = some next) : Moved o next := by
  unfold takeControl at h
  split at h
  case h_1 empty =>
    split at h <;> try contradiction
    cases Option.some.inj h
    exact .close o.driverGone false
  case h_2 rest queue =>
    split at h
    case isTrue untaken =>
      cases Option.some.inj h
      exact .ask rest idle untaken queue
    case isFalse taken =>
      cases Option.some.inj h
      exact .skip rest (by simpa using taken)
  case h_3 payload rest queue =>
    have sealing : sealFrame { o with control := rest, consumed := o.consumed ++ dataOf (pumpTagControl :: payload) } o.path
        pumpTagControl payload failure = some next := by
      rw [dataOfControl, List.append_nil]
      exact h
    exact movedByFrame idle pumpTagControl payload rest (by decide) (by simpa using queue) sealing

theorem moved {o next : Outbound} {installer : Installer} {event : SendEvent} (h : o.step installer event = some next) :
    Moved o next := by
  have failed (message : String) : Moved o { o with phase := .failed message } :=
    .fail o.control o.consumed message List.prefix_rfl
  cases event with
  | enqueue instruction =>
    simp only [step] at h
    split at h <;> try contradiction
    cases Option.some.inj h
    exact .enqueue instruction
  | driverDrops =>
    cases Option.some.inj h
    exact .close true o.controlOpen
  | control failure =>
    simp only [step] at h
    split at h <;> try contradiction
    case isTrue ready => exact movedByControl ready.1 h
  | direct failure =>
    simp only [step] at h
    split at h <;> try contradiction
    case isTrue waits =>
      cases installer with
      | waiting => contradiction
      | installed =>
        obtain ⟨message,rfl⟩ | rfl := sealFrameCases h
        · exact failed message
        · exact .mark waits
      | dropped =>
        cases Option.some.inj h
        exact .giveUp waits
  | readData bytes failure =>
    simp only [step] at h
    split at h <;> try contradiction
    case isTrue ready => exact movedByFrame ready.1 pumpTagData bytes o.control (by decide) (by simp) h
  | readEnd =>
    simp only [step] at h
    split at h <;> try contradiction
    case isTrue idle =>
      cases Option.some.inj h
      exact .ended idle
  | readFailed message =>
    simp only [step] at h
    split at h <;> try contradiction
    cases Option.some.inj h
    exact failed message
  | written =>
    simp only [step] at h
    split at h <;> try contradiction
    case h_1 marker writes =>
      cases Option.some.inj h
      exact .finish marker writes
  | writeFailed message =>
    simp only [step] at h
    split at h <;> try contradiction
    cases Option.some.inj h
    exact failed message

/- What every step but the driver's leaves alone: the loop takes instructions from the front of the queue. -/
structure Kept (o next : Outbound) : Prop where
  queued : next.queued = o.queued
  gone : next.driverGone = o.driverGone
  taken : next.control <:+ o.control

theorem keptFrame {o next : Outbound} {path : Path} {tag : UInt8} {payload : Bytes} {failure : Option String}
    (h : o.sealFrame path tag payload failure = some next) : Kept o next := by
  obtain ⟨message,rfl⟩ | rfl := sealFrameCases h
  · exact ⟨rfl,rfl,List.suffix_rfl⟩
  · exact ⟨rfl,rfl,List.suffix_rfl⟩

theorem keptControl {o next : Outbound} {failure : Option String} (h : o.takeControl failure = some next) : Kept o next := by
  unfold takeControl at h
  split at h
  case h_1 empty =>
    split at h <;> try contradiction
    cases Option.some.inj h
    exact ⟨rfl,rfl,List.suffix_rfl⟩
  case h_2 rest queue =>
    have behind : rest <:+ o.control := queue ▸ List.suffix_cons _ rest
    split at h <;> cases Option.some.inj h <;> exact ⟨rfl,rfl,behind⟩
  case h_3 payload rest queue =>
    have behind : rest <:+ o.control := queue ▸ List.suffix_cons _ rest
    have sealing := keptFrame h
    exact ⟨sealing.queued,sealing.gone,sealing.taken.trans behind⟩

theorem keptStep {o next : Outbound} {installer : Installer} {event : SendEvent} (queues : ∀ instruction, event ≠ .enqueue instruction)
    (drops : event ≠ .driverDrops) (h : o.step installer event = some next) : Kept o next := by
  cases event with
  | enqueue instruction => exact absurd rfl (queues instruction)
  | driverDrops => exact absurd rfl drops
  | control failure =>
    simp only [step] at h
    split at h <;> try contradiction
    exact keptControl h
  | direct failure =>
    simp only [step] at h
    split at h <;> try contradiction
    cases installer with
    | waiting => contradiction
    | installed => exact keptFrame h
    | dropped =>
      cases Option.some.inj h
      exact ⟨rfl,rfl,List.suffix_rfl⟩
  | readData bytes failure =>
    simp only [step] at h
    split at h <;> try contradiction
    have sealing := keptFrame h
    exact ⟨sealing.queued,sealing.gone,sealing.taken⟩
  | readEnd | readFailed | written | writeFailed =>
    simp only [step] at h
    split at h <;> try contradiction
    cases Option.some.inj h
    exact ⟨rfl,rfl,List.suffix_rfl⟩

def Failed (o : Outbound) : Prop := ∃ message, o.phase = .failed message

/- The stream of one direction, in the order in which the records were sealed. -/
def stream (o : Outbound) : List Bytes := o.sealed .relay ++ o.sealed .direct

/- Before the marker everything is on the relay. -/
structure Uncut (o : Outbound) : Prop where
  unmarked : .cutover ∉ controls (o.sealed .relay)
  empty : o.sealed .direct = []
  relay : o.onDirect = false
  unwritten : o.phase ≠ .writing true

/- The marker is the last record of the relay, behind what was queued before the cutover. -/
structure Cut (o : Outbound) : Prop where
  marked : ∃ front, o.sealed .relay = front ++ [[pumpTagCutover]] ∧ .cutover ∉ controls front ∧
    controls front = beforeCutover o.queued
  asked : .cutover ∈ o.queued
  taken : o.dirOutRx = false
  settled : o.phase ≠ .awaiting
  switched : o.onDirect = true ∨ o.sealed .direct = [] ∧ (o.phase = .writing true ∨ o.Failed)

structure Sound (o : Outbound) : Prop where
  carried : plain o.stream <+: o.consumed
  whole : ¬o.Failed → plain o.stream = o.consumed
  shape : o.Uncut ∨ o.Cut
  fresh : o.dirOutRx = true → ¬o.Failed →
    ∃ done, o.queued = done ++ o.control ∧ .cutover ∉ done ∧ controls (o.sealed .relay) = done
  waiting : o.phase = .awaiting →
    o.dirOutRx = false ∧ .cutover ∈ o.queued ∧ controls (o.sealed .relay) = beforeCutover o.queued

theorem soundStart : Sound {} where
  carried := List.nil_prefix
  whole _ := rfl
  shape := .inl ⟨by simp,rfl,rfl,by simp⟩
  fresh _ _ := ⟨[],rfl,by simp,rfl⟩
  waiting h := by contradiction

/- A failure leaves the sealed records as they are. -/
theorem Uncut.fail {o : Outbound} (uncut : o.Uncut) (message : String) : Uncut { o with phase := .failed message } :=
  ⟨uncut.unmarked,uncut.empty,uncut.relay,by simp⟩

theorem Cut.fail {o : Outbound} (cut : o.Cut) (message : String) : Cut { o with phase := .failed message } := by
  refine ⟨cut.marked,cut.asked,cut.taken,by simp,?_⟩
  obtain switched | ⟨empty,-⟩ := cut.switched
  · exact .inl switched
  · exact .inr ⟨empty,.inr ⟨message,rfl⟩⟩

/- A loop at its select is on the direct session exactly when the marker is sealed. -/
theorem Cut.onDirectAtSelect {o : Outbound} (cut : o.Cut) (idle : o.phase = .select) : o.onDirect = true := by
  obtain switched | ⟨-,writing | ⟨message,failed⟩⟩ := cut.switched
  · exact switched
  · simp [idle] at writing
  · simp [idle] at failed

/- The shape reads neither the driver's queue nor what was read from the local side. -/
theorem sameShape {o : Outbound} (shape : o.Uncut ∨ o.Cut) (control : List PumpControl) (gone opened : Bool) (consumed : Bytes) :
    Uncut { o with control := control, driverGone := gone, controlOpen := opened, consumed := consumed } ∨
    Cut { o with control := control, driverGone := gone, controlOpen := opened, consumed := consumed } :=
  shape.imp (fun uncut => ⟨uncut.1,uncut.2,uncut.3,uncut.4⟩) (fun cut => ⟨cut.1,cut.2,cut.3,cut.4,cut.5⟩)

theorem soundFail {o : Outbound} (sound : o.Sound) (control : List PumpControl) {consumed : Bytes} (message : String)
    (read : o.consumed <+: consumed) : Sound { o with control := control, consumed := consumed, phase := .failed message } where
  carried := sound.carried.trans read
  whole alive := absurd ⟨message,rfl⟩ alive
  shape := (sameShape sound.shape control o.driverGone o.controlOpen consumed).imp (·.fail message) (·.fail message)
  fresh _ alive := absurd ⟨message,rfl⟩ alive
  waiting h := by contradiction

theorem shapeSealed {o : Outbound} (shape : o.Uncut ∨ o.Cut) (idle : o.phase = .select) {record : Bytes}
    (unmarked : controlOf record ≠ some .cutover) :
    Uncut { o with sealed := sealOn o.sealed o.path record, phase := .writing false } ∨
    Cut { o with sealed := sealOn o.sealed o.path record, phase := .writing false } := by
  have later : .cutover ∉ controls [record] := by
    rw [controlsSingle, Option.mem_toList]
    exact unmarked
  obtain uncut | cut := shape
  · have path : o.path = .relay := by simp [Outbound.path, uncut.relay]
    refine .inl ⟨?_,?_,uncut.relay,by simp⟩
    · simpa only [path, sealOnRelayRelay, controlsAppend, List.mem_append, not_or] using ⟨uncut.unmarked,later⟩
    · simpa only [path, sealOnRelayDirect] using uncut.empty
  · have direct := cut.onDirectAtSelect idle
    have path : o.path = .direct := by simp [Outbound.path, direct]
    refine .inr ⟨?_,cut.asked,cut.taken,by simp,.inl direct⟩
    simpa only [path, sealOnDirectRelay] using cut.marked

/- Sealed on the path in use, a record is the next of the stream. -/
theorem streamSealed {o : Outbound} (shape : o.Uncut ∨ o.Cut) (idle : o.phase = .select) (record : Bytes) (phase : SendPhase) :
    stream { o with sealed := sealOn o.sealed o.path record, phase := phase } = o.stream ++ [record] := by
  obtain uncut | cut := shape
  · have path : o.path = .relay := by simp [Outbound.path, uncut.relay]
    simp only [stream, path, sealOnRelayRelay, sealOnRelayDirect, uncut.empty, List.append_nil]
  · have path : o.path = .direct := by simp [Outbound.path, cut.onDirectAtSelect idle]
    simp only [stream, path, sealOnDirectRelay, sealOnDirectDirect, List.append_assoc]

theorem freshUncut {o : Outbound} (sound : o.Sound) (untaken : o.dirOutRx = true) : o.Uncut := by
  obtain uncut | cut := sound.shape
  · exact uncut
  · rw [cut.taken] at untaken
    contradiction

theorem aliveIn {o : Outbound} {phase : SendPhase} (now : o.phase = phase) (live : ∀ message, phase ≠ .failed message) :
    ¬o.Failed := by
  rintro ⟨message,failed⟩
  rw [now] at failed
  exact live message failed

/- A record sealed at the select carries what the loop just took, from the local side or from the queue. -/
theorem soundSealed {o : Outbound} (sound : o.Sound) (idle : o.phase = .select) {record : Bytes} {control : List PumpControl}
    (unmarked : controlOf record ≠ some .cutover) (queue : o.control = (controlOf record).toList ++ control) :
    Sound { o with
      control := control
      consumed := o.consumed ++ dataOf record
      sealed := sealOn o.sealed o.path record
      phase := .writing false } := by
  have shape := sameShape sound.shape control o.driverGone o.controlOpen (o.consumed ++ dataOf record)
  have whole : plain (o.stream ++ [record]) = o.consumed ++ dataOf record := by
    rw [plainAppend, sound.whole (aliveIn idle (by simp)), plainSingle]
  have stream := streamSealed shape idle record (.writing false)
  refine ⟨?_,?_,shapeSealed shape idle unmarked,?_,by simp⟩
  · exact stream ▸ whole ▸ List.prefix_rfl
  · intro alive
    exact stream ▸ whole
  · intro untaken alive
    obtain ⟨done,queued,uncut,sent⟩ := sound.fresh untaken (aliveIn idle (by simp))
    have path : o.path = .relay := by simp [Outbound.path, (freshUncut sound untaken).relay]
    refine ⟨done ++ (controlOf record).toList,?_,?_,?_⟩
    · rw [queued, queue, List.append_assoc]
    · rw [List.mem_append, Option.mem_toList]
      exact fun cut => cut.elim uncut unmarked
    · simp only [path, sealOnRelayRelay, controlsAppend, controlsSingle, sent]

theorem soundMarker {o : Outbound} (sound : o.Sound) (waits : o.phase = .awaiting) :
    Sound { o with sealed := sealOn o.sealed .relay [pumpTagCutover], phase := .writing true } := by
  obtain ⟨taken,asked,sent⟩ := sound.waiting waits
  have uncut : o.Uncut := by
    obtain uncut | cut := sound.shape
    · exact uncut
    · exact absurd waits cut.settled
  have alive := aliveIn waits (by simp)
  have whole : plain (stream { o with sealed := sealOn o.sealed .relay [pumpTagCutover], phase := .writing true }) =
      o.consumed := by
    rw [← sound.whole alive]
    simp only [stream, sealOnRelayRelay, sealOnRelayDirect, uncut.empty, plainAppend, plainSingle, dataOfCutover, List.append_nil]
  refine ⟨whole ▸ List.prefix_rfl,fun _ => whole,.inr ?_,?_,by simp⟩
  · refine ⟨⟨o.sealed .relay,by simp,uncut.unmarked,sent⟩,asked,taken,by simp,.inr ⟨?_,.inl rfl⟩⟩
    simp [uncut.empty]
  · intro untaken
    rw [taken] at untaken
    contradiction

theorem soundTakeCutover {o : Outbound} (sound : o.Sound) (idle : o.phase = .select) (untaken : o.dirOutRx = true)
    {rest : List PumpControl} (queue : o.control = .cutover :: rest) :
    Sound { o with control := rest, dirOutRx := false, phase := .awaiting } := by
  obtain ⟨done,queued,before,sent⟩ := sound.fresh untaken (aliveIn idle (by simp))
  have uncut := freshUncut sound untaken
  have whole := sound.whole (aliveIn idle (by simp))
  refine ⟨sound.carried,fun _ => whole,.inl ⟨uncut.unmarked,uncut.empty,uncut.relay,by simp⟩,by simp,fun _ => ?_⟩
  rw [queue] at queued
  refine ⟨rfl,?_,?_⟩
  · simp [queued]
  · rw [sent, queued, beforeCutoverSplit before]

/- A cutover after the first is taken from the queue and nothing else. -/
theorem soundSkipCutover {o : Outbound} (sound : o.Sound) (taken : o.dirOutRx = false) (rest : List PumpControl) :
    Sound { o with control := rest } :=
  ⟨sound.carried,sound.whole,sameShape sound.shape rest o.driverGone o.controlOpen o.consumed,
    fun untaken => by simp [taken] at untaken,sound.waiting⟩

theorem soundWritten {o : Outbound} (sound : o.Sound) {marker : Bool} (writes : o.phase = .writing marker) :
    Sound { o with phase := .select, onDirect := o.onDirect || marker } := by
  have alive := aliveIn writes (by simp)
  refine ⟨sound.carried,fun _ => sound.whole alive,?_,fun untaken _ => sound.fresh untaken alive,by simp⟩
  obtain uncut | cut := sound.shape
  · -- Before the marker is sealed the record written is another one.
    have other : marker = false := by
      cases marker with
      | false => rfl
      | true => exact absurd writes uncut.unwritten
    exact .inl ⟨uncut.unmarked,uncut.empty,by simp [uncut.relay, other],by simp⟩
  · refine .inr ⟨cut.marked,cut.asked,cut.taken,by simp,.inl ?_⟩
    obtain switched | ⟨-,writing | failed⟩ := cut.switched
    · simp [switched]
    · rw [writes] at writing
      cases writing
      simp
    · exact absurd failed alive

/- A phase that is neither of the waits keeps the shape of a loop at its select. -/
theorem soundEnded {o : Outbound} (sound : o.Sound) (idle : o.phase = .select) : Sound { o with phase := .ended } := by
  have alive := aliveIn idle (by simp)
  refine ⟨sound.carried,fun _ => sound.whole alive,?_,fun untaken _ => sound.fresh untaken alive,by simp⟩
  obtain uncut | cut := sound.shape
  · exact .inl ⟨uncut.unmarked,uncut.empty,uncut.relay,by simp⟩
  · exact .inr ⟨cut.marked,cut.asked,cut.taken,by simp,.inl (cut.onDirectAtSelect idle)⟩

theorem soundGivenUp {o : Outbound} (sound : o.Sound) (waits : o.phase = .awaiting) : Sound { o with phase := .select } := by
  obtain ⟨taken,-,-⟩ := sound.waiting waits
  have alive := aliveIn waits (by simp)
  refine ⟨sound.carried,fun _ => sound.whole alive,?_,fun untaken => by simp [taken] at untaken,by simp⟩
  obtain uncut | cut := sound.shape
  · exact .inl ⟨uncut.unmarked,uncut.empty,uncut.relay,by simp⟩
  · exact absurd waits cut.settled

theorem soundEnqueue {o : Outbound} (sound : o.Sound) (instruction : PumpControl) :
    Sound { o with control := o.control ++ [instruction], queued := o.queued ++ [instruction] } := by
  refine ⟨sound.carried,sound.whole,?_,?_,?_⟩
  · obtain uncut | cut := sound.shape
    · exact .inl ⟨uncut.unmarked,uncut.empty,uncut.relay,uncut.unwritten⟩
    · obtain ⟨front,sealed,before,sent⟩ := cut.marked
      refine .inr ⟨⟨front,sealed,before,?_⟩,List.mem_append_left _ cut.asked,cut.taken,cut.settled,cut.switched⟩
      rw [sent, beforeCutoverNext cut.asked]
  · intro untaken alive
    obtain ⟨done,queued,before,sent⟩ := sound.fresh untaken alive
    exact ⟨done,by rw [queued, List.append_assoc],before,sent⟩
  · intro waits
    obtain ⟨taken,asked,sent⟩ := sound.waiting waits
    exact ⟨taken,List.mem_append_left _ asked,by rw [sent, beforeCutoverNext asked]⟩

theorem soundStep {o next : Outbound} {installer : Installer} {event : SendEvent} (sound : o.Sound)
    (h : o.step installer event = some next) : next.Sound := by
  cases moved h with
  | enqueue instruction => exact soundEnqueue sound instruction
  | close gone opened =>
    exact ⟨sound.carried,sound.whole,sameShape sound.shape o.control gone opened o.consumed,sound.fresh,sound.waiting⟩
  | ask rest idle untaken queue => exact soundTakeCutover sound idle untaken queue
  | skip rest taken => exact soundSkipCutover sound taken rest
  | carry record control idle unmarked queue => exact soundSealed sound idle unmarked queue
  | mark waits => exact soundMarker sound waits
  | giveUp waits => exact soundGivenUp sound waits
  | finish marker writes => exact soundWritten sound writes
  | ended idle => exact soundEnded sound idle
  | fail control consumed message read => exact soundFail sound control message read

/- Nothing goes out that the driver did not ask for. -/
structure Asked (o : Outbound) : Prop where
  sent : ∀ c ∈ controls o.stream, c ∈ o.queued
  waiting : ∀ c ∈ o.control, c ∈ o.queued

theorem askedStart : Asked {} := ⟨by simp [stream],by simp⟩

theorem askedEnqueue {o : Outbound} (asked : o.Asked) (instruction : PumpControl) :
    Asked { o with control := o.control ++ [instruction], queued := o.queued ++ [instruction] } := by
  refine ⟨fun c mem => List.mem_append_left _ (asked.sent c mem),fun c mem => ?_⟩
  obtain waits | last := List.mem_append.mp mem
  · exact List.mem_append_left _ (asked.waiting c waits)
  · exact List.mem_append_right _ last

theorem askedStep {o next : Outbound} {installer : Installer} {event : SendEvent} (sound : o.Sound) (asked : o.Asked)
    (queues : ∀ instruction, event ≠ .enqueue instruction) (drops : event ≠ .driverDrops)
    (h : o.step installer event = some next) : next.Asked := by
  have kept := keptStep queues drops h
  refine ⟨fun c mem => ?_,fun c mem => kept.queued ▸ asked.waiting c (kept.taken.subset mem)⟩
  rw [kept.queued]
  cases moved h with
  | enqueue | close | ask | skip | giveUp | finish | ended | fail => exact asked.sent c mem
  | carry record control idle unmarked queue =>
    have grown : c ∈ controls (o.stream ++ [record]) := streamSealed sound.shape idle record (.writing false) ▸ mem
    rw [controlsAppend, List.mem_append, controlsSingle] at grown
    exact grown.elim (asked.sent c) (fun next => asked.waiting c (queue ▸ List.mem_append_left _ next))
  | mark waits =>
    have cut := (sound.waiting waits).2.1
    simp only [stream, sealOnRelayRelay, sealOnRelayDirect, controlsAppend, controlsSingle, controlOfCutover, Option.toList_some,
      List.mem_append, List.mem_singleton] at mem
    obtain (relay | rfl) | direct := mem
    · exact asked.sent c (by simp [stream, relay])
    · exact cut
    · exact asked.sent c (by simp [stream, direct])

/- The records of a step after those before it: nothing follows the marker on the relay. -/
structure Grown (sealed later : Path → List Bytes) : Prop where
  relay : ∃ rest, later .relay = sealed .relay ++ rest ∧ (.cutover ∈ controls (sealed .relay) → rest = [])
  direct : ∃ rest, later .direct = sealed .direct ++ rest

theorem Grown.same (sealed : Path → List Bytes) : Grown sealed sealed :=
  ⟨⟨[],by simp,fun _ => rfl⟩,⟨[],by simp⟩⟩

theorem Grown.onRelay {sealed : Path → List Bytes} (unmarked : .cutover ∉ controls (sealed .relay)) (record : Bytes) :
    Grown sealed (sealOn sealed .relay record) :=
  ⟨⟨[record],by simp,fun marked => absurd marked unmarked⟩,⟨[],by simp⟩⟩

theorem Grown.onDirect (sealed : Path → List Bytes) (record : Bytes) : Grown sealed (sealOn sealed .direct record) :=
  ⟨⟨[],by simp,fun _ => rfl⟩,⟨[record],by simp⟩⟩

theorem grownStep {o next : Outbound} {installer : Installer} {event : SendEvent} (sound : o.Sound)
    (h : o.step installer event = some next) : Grown o.sealed next.sealed := by
  cases moved h with
  | carry record control idle unmarked queue =>
    obtain uncut | cut := sound.shape
    · have path : o.path = .relay := by simp [Outbound.path, uncut.relay]
      exact path ▸ .onRelay uncut.unmarked record
    · have path : o.path = .direct := by simp [Outbound.path, cut.onDirectAtSelect idle]
      exact path ▸ .onDirect o.sealed record
  | mark waits =>
    obtain uncut | cut := sound.shape
    · exact .onRelay uncut.unmarked [pumpTagCutover]
    · exact absurd waits cut.settled
  | enqueue | close | ask | skip | giveUp | finish | ended | fail => exact .same o.sealed

/- The reader's side of the shape: the relay ends at its marker. -/
theorem markerLast {o : Outbound} (sound : o.Sound) {nonce : Nat} {record : Bytes} (found : (o.sealed .relay)[nonce]? = some record)
    (marker : controlOf record = some .cutover) : nonce + 1 = (o.sealed .relay).length := by
  obtain uncut | cut := sound.shape
  · exact absurd (List.mem_filterMap.mpr ⟨record,List.mem_of_getElem? found,marker⟩) uncut.unmarked
  · obtain ⟨front,sealed,before,-⟩ := cut.marked
    rw [sealed] at found ⊢
    have within : nonce < (front ++ [[pumpTagCutover]]).length := (List.getElem?_eq_some_iff.mp found).1
    rcases Nat.lt_or_ge nonce front.length with early | late
    · rw [List.getElem?_append_left early] at found
      exact absurd (List.mem_filterMap.mpr ⟨record,List.mem_of_getElem? found,marker⟩) before
    · simp only [List.length_append, List.length_singleton] at within ⊢
      omega

theorem directAfterMarker {o : Outbound} (sound : o.Sound) (unmarked : .cutover ∉ controls (o.sealed .relay)) :
    o.sealed .direct = [] := by
  obtain uncut | cut := sound.shape
  · exact uncut.empty
  · obtain ⟨front,sealed,-,-⟩ := cut.marked
    simp [sealed] at unmarked

theorem sentBeforeMarker {o : Outbound} (sound : o.Sound) (marked : .cutover ∈ controls (o.sealed .relay))
    (later : List PumpControl) : beforeCutover (controls (o.sealed .relay) ++ later) = beforeCutover o.queued := by
  obtain uncut | cut := sound.shape
  · exact absurd marked uncut.unmarked
  · obtain ⟨front,sealed,before,sent⟩ := cut.marked
    rw [sealed, controlsAppend, controlsSingle, controlOfCutover, Option.toList_some, List.append_assoc, List.singleton_append,
      beforeCutoverSplit before, sent]

end Outbound
end CadsTunnel.Cutover
