import CadsTunnel.CutoverSound

/-! The reader of one direction against its sender. The reader has opened the relay up
to some record, and direct records only behind the whole relay, so what it opened is a
prefix of the sender's stream; the records it opened say what it wrote and what it
handed to the driver. Both directions of a session keep this in every run. -/
namespace CadsTunnel.Cutover
open Words

namespace Handled

def instruction : Handled → PumpControl
  | .control payload _ => .send payload
  | .cutover => .cutover

def delivered : Handled → Option Bytes
  | .control payload .delivered => some payload
  | _ => none

end Handled

/- The payloads that reached the driver's sink. -/
def accepted (handled : List Handled) : List Bytes := handled.filterMap Handled.delivered

@[simp] theorem acceptedAppend (first later : List Handled) : accepted (first ++ later) = accepted first ++ accepted later :=
  List.filterMap_append

@[simp] theorem acceptedCutover : accepted [.cutover] = [] := rfl

/- What is left of the record that is being handed to the local side. -/
def ReadPhase.rest : ReadPhase → Bytes
  | .delivering rest => rest
  | _ => []

namespace Inbound

def Failed (i : Inbound) : Prop := ∃ message, i.phase = .failed message

theorem aliveIn {i : Inbound} {phase : ReadPhase} (now : i.phase = phase) (live : ∀ message, phase ≠ .failed message) :
    ¬i.Failed := by
  rintro ⟨message,failed⟩
  rw [now] at failed
  exact live message failed

/- The next record of the path in use. -/
def advance (i : Inbound) : Inbound := { i with opened := Function.update i.opened i.path (i.opened i.path + 1) }

theorem readMessageSome {i : Inbound} {sealed : Path → List Bytes} {frame : Frame} {message : Bytes}
    (h : i.readMessage sealed frame = some message) : (sealed i.path)[i.opened i.path]? = some message := by
  cases frame with
  | foreign => contradiction
  | record path nonce =>
    simp only [readMessage] at h
    split at h <;> try contradiction
    case isTrue next =>
      obtain ⟨rfl,rfl⟩ := next
      exact h

/- All that a step of the inbound loop and of its driver can do. -/
inductive Moved (sealed : Path → List Bytes) (i : Inbound) : Inbound → Prop where
  | receive (record : Bytes) (reading : i.phase = .reading) (found : (sealed i.path)[i.opened i.path]? = some record) :
    Moved sealed i (i.advance.receive record)
  | fail (message : String) : Moved sealed i { i with phase := .failed message }
  -- Bytes handed to the local side move from the rest of the record to the output.
  | hand (output : Bytes) (phase : ReadPhase) (alive : ¬i.Failed) (busy : i.phase ≠ .awaiting) (still : phase ≠ .awaiting)
      (same : output ++ phase.rest = i.output ++ i.phase.rest) : Moved sealed i { i with output := output, phase := phase }
  | switch (waits : i.phase = .awaiting) : Moved sealed i { i with phase := .reading, onDirect := true }
  | take (payload : Bytes) (rest : List Bytes) (queue : i.controlIn = payload :: rest) :
    Moved sealed i { i with controlIn := rest, taken := i.taken ++ [payload] }
  | close : Moved sealed i { i with driverClosed := true }

theorem moved {i next : Inbound} {sealed : Path → List Bytes} {installer : Installer} {event : ReadEvent}
    (h : i.step installer sealed event = some next) : Moved sealed i next := by
  cases event with
  | arrive frame error =>
    simp only [step] at h
    split at h <;> try contradiction
    case isTrue reading =>
      cases Option.some.inj h
      unfold arrive
      split
      case h_1 message opened => exact .receive message reading (readMessageSome opened)
      case h_2 refused => exact .fail error
  | broken =>
    simp only [step] at h
    split at h <;> try contradiction
    case isTrue reading =>
      cases Option.some.inj h
      exact .hand i.output .ended (aliveIn reading (by simp)) (by simp [reading]) (by simp) (by simp [ReadPhase.rest, reading])
  | direct =>
    simp only [step] at h
    split at h <;> try contradiction
    case isTrue waits =>
      cases installer with
      | waiting => contradiction
      | installed =>
        cases Option.some.inj h
        exact .switch waits
      | dropped =>
        cases Option.some.inj h
        exact .fail cannotHonor
  | handed count =>
    simp only [step] at h
    split at h <;> try contradiction
    case h_1 rest delivering =>
      split at h <;> try contradiction
      cases Option.some.inj h
      exact .hand (i.output ++ rest.take count) (.delivering (rest.drop count)) (aliveIn delivering (by simp))
        (by simp [delivering]) (by simp) (by simp [ReadPhase.rest, delivering])
  | flushed =>
    simp only [step] at h
    split at h <;> try contradiction
    case isTrue delivering =>
      cases Option.some.inj h
      exact .hand i.output .reading (aliveIn delivering (by simp)) (by simp [delivering]) (by simp)
        (by simp [ReadPhase.rest, delivering])
  | outputFailed message =>
    simp only [step] at h
    split at h <;> try contradiction
    cases Option.some.inj h
    exact .fail message
  | driverTakes =>
    simp only [step] at h
    split at h <;> try contradiction
    case h_1 payload rest queue =>
      split at h <;> try contradiction
      cases Option.some.inj h
      exact .take payload rest queue
  | driverCloses =>
    cases Option.some.inj h
    exact .close

/- What every step but the driver's leaves alone. -/
structure Kept (i next : Inbound) : Prop where
  taken : next.taken = i.taken
  closed : next.driverClosed = i.driverClosed

theorem keptReceive (i : Inbound) (record : Bytes) : Kept i (i.receive record) := by
  cases record with
  | nil => exact ⟨rfl,rfl⟩
  | cons tag payload =>
    simp only [receive]
    split
    · exact ⟨rfl,rfl⟩
    · split
      · exact ⟨rfl,rfl⟩
      · exact ⟨rfl,rfl⟩

theorem keptStep {i next : Inbound} {sealed : Path → List Bytes} {installer : Installer} {event : ReadEvent}
    (takes : event ≠ .driverTakes) (closes : event ≠ .driverCloses) (h : i.step installer sealed event = some next) : Kept i next := by
  cases event with
  | driverTakes => exact absurd rfl takes
  | driverCloses => exact absurd rfl closes
  | arrive frame error =>
    simp only [step] at h
    split at h <;> try contradiction
    cases Option.some.inj h
    simp only [arrive]
    split
    · have received := keptReceive i.advance
      exact ⟨(received _).taken,(received _).closed⟩
    · exact ⟨rfl,rfl⟩
  | broken | flushed =>
    simp only [step] at h
    split at h <;> try contradiction
    cases Option.some.inj h
    exact ⟨rfl,rfl⟩
  | direct =>
    simp only [step] at h
    split at h <;> try contradiction
    cases installer with
    | waiting => contradiction
    | installed | dropped =>
      cases Option.some.inj h
      exact ⟨rfl,rfl⟩
  | handed count =>
    simp only [step] at h
    split at h <;> try contradiction
    split at h <;> try contradiction
    cases Option.some.inj h
    exact ⟨rfl,rfl⟩
  | outputFailed message =>
    simp only [step] at h
    split at h <;> try contradiction
    cases Option.some.inj h
    exact ⟨rfl,rfl⟩

def processed (sealed : Path → List Bytes) (i : Inbound) : List Bytes :=
  (sealed .relay).take (i.opened .relay) ++ (sealed .direct).take (i.opened .direct)

/- The place of the reader: before the marker of the relay, or behind the whole relay. -/
structure Placed (sealed : Path → List Bytes) (i : Inbound) : Prop where
  within : ∀ path, i.opened path ≤ (sealed path).length
  before : i.dirInRx = true → .cutover ∉ controls ((sealed .relay).take (i.opened .relay)) ∧ i.onDirect = false
  after : i.dirInRx = false → i.opened .relay = (sealed .relay).length ∧ .cutover ∈ controls (sealed .relay)
  untouched : i.onDirect = false → i.opened .direct = 0

structure Follows (sealed : Path → List Bytes) (i : Inbound) : Prop where
  placed : i.Placed sealed
  waiting : ¬i.Failed → (i.phase = .awaiting ↔ i.dirInRx = false ∧ i.onDirect = false)
  carried : i.output <+: plain (i.processed sealed)
  whole : ¬i.Failed → i.output ++ i.phase.rest = plain (i.processed sealed)
  heard : i.handled.map Handled.instruction = controls (i.processed sealed)

theorem followsStart : Follows (fun _ => []) {} where
  placed := ⟨fun _ => Nat.le_refl _,by simp,by simp,by simp⟩
  waiting _ := by simp
  carried := List.nil_prefix
  whole _ := rfl
  heard := rfl

/- More records behind those of the sender leave the reader where it is. -/
theorem Placed.grown {sealed later : Path → List Bytes} {i : Inbound} (placed : i.Placed sealed)
    (grown : Outbound.Grown sealed later) : i.Placed later ∧ i.processed later = i.processed sealed := by
  obtain ⟨relayRest,relay,ended⟩ := grown.relay
  obtain ⟨directRest,direct⟩ := grown.direct
  have relayTake : (later .relay).take (i.opened .relay) = (sealed .relay).take (i.opened .relay) := by
    rw [relay, List.take_append_of_le_length (placed.within .relay)]
  have directTake : (later .direct).take (i.opened .direct) = (sealed .direct).take (i.opened .direct) := by
    rw [direct, List.take_append_of_le_length (placed.within .direct)]
  refine ⟨⟨?_,?_,?_,placed.untouched⟩,?_⟩
  · intro path
    have before := placed.within path
    cases path with
    | relay => rw [relay, List.length_append]; omega
    | direct => rw [direct, List.length_append]; omega
  · intro untaken
    rw [relayTake]
    exact placed.before untaken
  · intro taken
    obtain ⟨reached,marked⟩ := placed.after taken
    rw [relay, ended marked, List.append_nil]
    exact ⟨reached,marked⟩
  · rw [processed, relayTake, directTake]
    rfl

theorem Follows.grown {sealed later : Path → List Bytes} {i : Inbound} (follows : i.Follows sealed)
    (grown : Outbound.Grown sealed later) : i.Follows later := by
  obtain ⟨placed,same⟩ := follows.placed.grown grown
  exact ⟨placed,follows.waiting,same ▸ follows.carried,fun alive => same ▸ follows.whole alive,same ▸ follows.heard⟩

/- A reader at a record of the relay has not seen the marker. -/
theorem Follows.untakenOnRelay {sealed : Path → List Bytes} {i : Inbound} (follows : i.Follows sealed)
    (reading : i.phase = .reading) (relay : i.onDirect = false) : i.dirInRx = true := by
  have alive := aliveIn reading (by simp)
  cases taken : i.dirInRx with
  | true => rfl
  | false =>
    have waits := (follows.waiting alive).mpr ⟨taken,relay⟩
    rw [reading] at waits
    contradiction

theorem takeNext {records : List Bytes} {n : Nat} {record : Bytes} (found : records[n]? = some record) :
    records.take (n + 1) = records.take n ++ [record] := by
  rw [List.take_add_one, found, Option.toList_some]

theorem processedNext {sealed : Path → List Bytes} {i : Inbound} (placed : i.Placed sealed) {record : Bytes}
    (found : (sealed i.path)[i.opened i.path]? = some record) :
    i.advance.processed sealed = i.processed sealed ++ [record] := by
  cases side : i.onDirect with
  | false =>
    have path : i.path = .relay := by simp [Inbound.path, side]
    rw [path] at found
    simp only [processed, advance, path, Function.update_self, ne_eq, reduceCtorEq, not_false_eq_true, Function.update_of_ne,
      placed.untouched side, takeNext found, List.take_zero, List.append_nil]
  | true =>
    have path : i.path = .direct := by simp [Inbound.path, side]
    rw [path] at found
    simp only [processed, advance, path, Function.update_self, ne_eq, reduceCtorEq, not_false_eq_true, Function.update_of_ne,
      takeNext found, List.append_assoc]

theorem withinNext {sealed : Path → List Bytes} {i : Inbound} (placed : i.Placed sealed) {record : Bytes}
    (found : (sealed i.path)[i.opened i.path]? = some record) (path : Path) : i.advance.opened path ≤ (sealed path).length := by
  by_cases same : path = i.path
  · subst same
    have inside := (List.getElem?_eq_some_iff.mp found).1
    simp only [advance, Function.update_self]
    omega
  · simpa only [advance, Function.update_of_ne same] using placed.within path

theorem advanceRelay {i : Inbound} (relay : i.onDirect = false) :
    i.advance.opened .relay = i.opened .relay + 1 ∧ i.advance.opened .direct = i.opened .direct := by
  have path : i.path = .relay := by simp [Inbound.path, relay]
  simp [advance, path]

theorem advanceDirect {i : Inbound} (direct : i.onDirect = true) : i.advance.opened .relay = i.opened .relay := by
  have path : i.path = .direct := by simp [Inbound.path, direct]
  simp [advance, path]

theorem placedNext {sealed : Path → List Bytes} {i : Inbound} (follows : i.Follows sealed) (reading : i.phase = .reading)
    {record : Bytes} (found : (sealed i.path)[i.opened i.path]? = some record)
    (unmarked : i.dirInRx = true → controlOf record ≠ some .cutover) : i.advance.Placed sealed := by
  have placed := follows.placed
  refine ⟨withinNext placed found,?_,?_,?_⟩
  · intro untaken
    obtain ⟨before,relay⟩ := placed.before untaken
    have path : i.path = .relay := by simp [Inbound.path, relay]
    rw [path] at found
    refine ⟨?_,relay⟩
    rw [(advanceRelay relay).1, takeNext found, controlsAppend, controlsSingle, List.mem_append, Option.mem_toList]
    exact fun cut => cut.elim before (unmarked untaken)
  · intro taken
    have direct : i.onDirect = true := by
      cases side : i.onDirect with
      | true => rfl
      | false => exact absurd (follows.untakenOnRelay reading side) (ne_true_of_eq_false taken)
    rw [advanceDirect direct]
    exact placed.after taken
  · intro (relay : i.onDirect = false)
    exact (advanceRelay relay).2.trans (placed.untouched relay)

/- The marker is the last record of the relay, so the reader is behind all of them. -/
theorem placedMarker {sealed : Path → List Bytes} {i : Inbound} (placed : i.Placed sealed) (untaken : i.dirInRx = true)
    {record : Bytes} (found : (sealed .relay)[i.opened .relay]? = some record) (marker : controlOf record = some .cutover)
    (last : i.opened .relay + 1 = (sealed .relay).length) : Placed sealed { i.advance with dirInRx := false } := by
  obtain ⟨-,relay⟩ := placed.before untaken
  have path : i.path = .relay := by simp [Inbound.path, relay]
  refine ⟨withinNext placed (path ▸ found),by simp,fun _ => ⟨?_,?_⟩,fun _ => ?_⟩
  · exact (advanceRelay relay).1.trans last
  · exact List.mem_filterMap.mpr ⟨record,List.mem_of_getElem? found,marker⟩
  · exact (advanceRelay relay).2.trans (placed.untouched relay)

/- What the reader does with the record it opened, against what the record says. -/
theorem followsNext {sealed : Path → List Bytes} {i next : Inbound} (follows : i.Follows sealed) (reading : i.phase = .reading)
    {record : Bytes} (found : (sealed i.path)[i.opened i.path]? = some record) (placed : next.Placed sealed)
    (opened : next.opened = i.advance.opened) (waiting : next.phase = .awaiting ↔ next.dirInRx = false ∧ next.onDirect = false)
    (output : next.output = i.output) (rest : next.phase.rest = dataOf record)
    (handled : next.handled.map Handled.instruction = i.handled.map Handled.instruction ++ (controlOf record).toList) :
    next.Follows sealed := by
  have processed : next.processed sealed = i.processed sealed ++ [record] := by
    rw [← processedNext follows.placed found, Inbound.processed, opened]
    rfl
  have whole : next.output ++ next.phase.rest = plain (next.processed sealed) := by
    have before := follows.whole (aliveIn reading (by simp))
    simp only [ReadPhase.rest, reading, List.append_nil] at before
    rw [output, rest, processed, plainAppend, plainSingle, before]
  refine ⟨placed,fun _ => waiting,?_,fun _ => whole,?_⟩
  · rw [← whole]
    exact List.prefix_append _ _
  · rw [handled, follows.heard, processed, controlsAppend, controlsSingle]

theorem followsFirstMarker {sealed : Path → List Bytes} {i : Inbound} (follows : i.Follows sealed) (reading : i.phase = .reading)
    (untaken : i.dirInRx = true) {payload : Bytes}
    (found : (sealed i.path)[i.opened i.path]? = some (pumpTagCutover :: payload))
    (last : i.path = .relay → i.opened .relay + 1 = (sealed .relay).length) : i.advance.receiveCutover.Follows sealed := by
  have relay := (follows.placed.before untaken).2
  have path : i.path = .relay := by simp [Inbound.path, relay]
  have placed := placedMarker follows.placed untaken (path ▸ found) (controlOfCutover payload) (last path)
  have waiting : i.advance.receiveCutover.phase = .awaiting := if_pos untaken
  refine followsNext follows reading found ⟨placed.1,placed.2,placed.3,placed.4⟩ rfl ?_ rfl ?_ ?_
  · exact ⟨fun _ => ⟨rfl,relay⟩,fun _ => waiting⟩
  · simp [ReadPhase.rest, waiting]
  · exact List.map_append

theorem followsReceive {sealed : Path → List Bytes} {i : Inbound} (follows : i.Follows sealed) (reading : i.phase = .reading)
    {record : Bytes} (found : (sealed i.path)[i.opened i.path]? = some record)
    (last : i.path = .relay → controlOf record = some .cutover → i.opened .relay + 1 = (sealed .relay).length) :
    (i.advance.receive record).Follows sealed := by
  have still : i.phase = .awaiting ↔ i.dirInRx = false ∧ i.onDirect = false := follows.waiting (aliveIn reading (by simp))
  have idle : ¬(i.dirInRx = false ∧ i.onDirect = false) := by simp [← still, reading]
  cases record with
  | nil =>
    refine followsNext follows reading found (placedNext follows reading found (by simp [controlOf])) rfl still rfl ?_ ?_
    · simp [receive, advance, ReadPhase.rest, reading, dataOf]
    · simp [receive, advance, controlOf]
  | cons tag payload =>
    simp only [receive]
    split
    case isTrue marker =>
      subst marker
      cases untaken : i.dirInRx with
      | true => exact followsFirstMarker follows reading untaken found (fun path => last path (controlOfCutover payload))
      | false =>
        have same : i.advance.receiveCutover = { i.advance with handled := i.handled ++ [.cutover] } := by
          simp [receiveCutover, advance, untaken]
        have placed := placedNext follows reading found (by simp [untaken])
        rw [same]
        refine followsNext follows reading found ⟨placed.1,placed.2,placed.3,placed.4⟩ rfl still rfl ?_ List.map_append
        simp [advance, ReadPhase.rest, reading]
    case isFalse other =>
      have unmarked : controlOf (tag :: payload) ≠ some .cutover := by
        simp only [controlOf, other, if_false]
        split <;> simp
      have placed := placedNext follows reading found (fun _ => unmarked)
      split
      case isTrue control =>
        subst control
        refine followsNext follows reading found ⟨placed.1,placed.2,placed.3,placed.4⟩ rfl still rfl ?_ List.map_append
        simp [receiveControl, advance, ReadPhase.rest, reading]
      case isFalse data =>
        refine followsNext follows reading found ⟨placed.1,placed.2,placed.3,placed.4⟩ rfl ?_ rfl ?_ ?_
        · simpa [advance] using idle
        · simp [ReadPhase.rest, dataOf, other, data]
        · simp [advance, controlOf, other, data]

theorem followsFail {sealed : Path → List Bytes} {i : Inbound} (follows : i.Follows sealed) (message : String) :
    Follows sealed { i with phase := .failed message } :=
  ⟨⟨follows.placed.1,follows.placed.2,follows.placed.3,follows.placed.4⟩,fun alive => absurd ⟨message,rfl⟩ alive,
    follows.carried,fun alive => absurd ⟨message,rfl⟩ alive,follows.heard⟩

theorem followsHanded {sealed : Path → List Bytes} {i : Inbound} (follows : i.Follows sealed) {output : Bytes} {phase : ReadPhase}
    (alive : ¬i.Failed) (busy : i.phase ≠ .awaiting) (still : phase ≠ .awaiting)
    (same : output ++ phase.rest = i.output ++ i.phase.rest) : Follows sealed { i with output := output, phase := phase } := by
  have idle : ¬(i.dirInRx = false ∧ i.onDirect = false) := by
    rw [← follows.waiting alive]
    exact busy
  have whole := follows.whole alive
  rw [← same] at whole
  refine ⟨⟨follows.placed.1,follows.placed.2,follows.placed.3,follows.placed.4⟩,fun _ => ?_,?_,fun _ => whole,follows.heard⟩
  · exact iff_of_false still idle
  · exact ⟨phase.rest,whole⟩

theorem followsSwitched {sealed : Path → List Bytes} {i : Inbound} (follows : i.Follows sealed) (waits : i.phase = .awaiting) :
    Follows sealed { i with phase := .reading, onDirect := true } := by
  have alive := aliveIn waits (by simp)
  obtain ⟨taken,-⟩ := (follows.waiting alive).mp waits
  have whole := follows.whole alive
  simp only [ReadPhase.rest, waits] at whole
  refine ⟨⟨follows.placed.1,?_,follows.placed.3,by simp⟩,by simp,follows.carried,fun _ => whole,follows.heard⟩
  intro untaken
  simp [taken] at untaken

theorem followsStep {o : Outbound} (sound : o.Sound) {i next : Inbound} {installer : Installer} {event : ReadEvent}
    (follows : i.Follows o.sealed) (h : i.step installer o.sealed event = some next) : next.Follows o.sealed := by
  have placed := follows.placed
  cases moved h with
  | receive record reading found =>
    refine followsReceive follows reading found (fun path marker => ?_)
    rw [path] at found
    exact o.markerLast sound found marker
  | fail message => exact followsFail follows message
  | hand output phase alive busy still same => exact followsHanded follows alive busy still same
  | switch waits => exact followsSwitched follows waits
  | take | close =>
    exact ⟨⟨placed.1,placed.2,placed.3,placed.4⟩,follows.waiting,follows.carried,follows.whole,follows.heard⟩

/- The driver's sink takes the payloads in order and drops one only when it is closed or full. -/
structure Sunk (i : Inbound) : Prop where
  kept : i.taken ++ i.controlIn = accepted i.handled
  dropped : ∀ front payload outcome later, i.handled = front ++ .control payload outcome :: later →
    outcome = .delivered ∨ outcome = .closed ∧ i.driverClosed = true ∨
    outcome = .full ∧ controlInChannelBound ≤ (accepted front).length

theorem sunkStart : Sunk {} where
  kept := rfl
  dropped front payload outcome later split := by simp at split

theorem sunkCutover {i : Inbound} (sunk : i.Sunk) : i.receiveCutover.Sunk where
  kept := by simpa [receiveCutover] using sunk.kept
  dropped front payload outcome later split := by
    obtain rfl | ⟨before,last,rfl⟩ := List.eq_nil_or_concat later
    · have same := (List.append_inj' split rfl).2
      simp at same
    · rw [List.concat_eq_append, ← List.cons_append, ← List.append_assoc] at split
      exact sunk.dropped front payload outcome before (List.append_inj' split rfl).1

theorem sunkControl {i : Inbound} (sunk : i.Sunk) (payload : Bytes) : (i.receiveControl payload).Sunk where
  kept := by
    simp only [receiveControl, acceptedAppend, ← sunk.kept, List.append_assoc]
    congr 1
    cases i.trySend <;> simp [accepted, Handled.delivered]
  dropped front message outcome later split := by
    obtain rfl | ⟨before,last,rfl⟩ := List.eq_nil_or_concat later
    · obtain ⟨same,entry⟩ := List.append_inj' split rfl
      simp only [List.cons.injEq, Handled.control.injEq, and_true] at entry
      obtain ⟨rfl,rfl⟩ := entry
      simp only [trySend]
      split
      case isTrue closed => exact .inr (.inl ⟨rfl,closed⟩)
      case isFalse driver =>
        split
        case isTrue room => exact .inl rfl
        case isFalse full =>
          refine .inr (.inr ⟨rfl,?_⟩)
          rw [← same, ← sunk.kept, List.length_append]
          omega
    · rw [List.concat_eq_append, ← List.cons_append, ← List.append_assoc] at split
      exact sunk.dropped front message outcome before (List.append_inj' split rfl).1

theorem sunkReceive {i : Inbound} (sunk : i.Sunk) (record : Bytes) : (i.receive record).Sunk := by
  cases record with
  | nil => exact sunk
  | cons tag payload =>
    simp only [receive]
    split
    · exact sunkCutover sunk
    · split
      · exact sunkControl sunk payload
      · exact ⟨sunk.kept,sunk.dropped⟩

theorem sunkStep {i next : Inbound} {sealed : Path → List Bytes} {installer : Installer} {event : ReadEvent} (sunk : i.Sunk)
    (h : i.step installer sealed event = some next) : next.Sunk := by
  cases moved h with
  | receive record reading found =>
    have advanced : i.advance.Sunk := ⟨sunk.kept,sunk.dropped⟩
    exact sunkReceive advanced record
  | fail | hand | switch => exact ⟨sunk.kept,sunk.dropped⟩
  | take payload rest queue =>
    refine ⟨?_,sunk.dropped⟩
    rw [List.append_assoc, List.singleton_append, ← queue]
    exact sunk.kept
  | close =>
    refine ⟨sunk.kept,fun front payload outcome later split => ?_⟩
    exact (sunk.dropped front payload outcome later split).imp_right (Or.imp_left (fun closed => ⟨closed.1,rfl⟩))

/- What was opened is a beginning of the sender's stream. -/
theorem Placed.processedPrefix {o : Outbound} {i : Inbound} (placed : i.Placed o.sealed) : i.processed o.sealed <+: o.stream := by
  cases taken : i.dirInRx with
  | true =>
    have relay := (placed.before taken).2
    rw [processed, placed.untouched relay, List.take_zero, List.append_nil]
    exact (List.take_prefix _ _).trans (List.prefix_append _ _)
  | false =>
    rw [processed, (placed.after taken).1, List.take_length, Outbound.stream]
    exact (List.prefix_append_right_inj _).mpr (List.take_prefix _ _)

theorem Placed.processedAll {o : Outbound} (sound : o.Sound) {i : Inbound} (placed : i.Placed o.sealed)
    (idle : ¬(i.dirInRx = false ∧ i.onDirect = false)) (reached : i.opened i.path = (o.sealed i.path).length) :
    i.processed o.sealed = o.stream := by
  cases side : i.onDirect with
  | false =>
    have untaken : i.dirInRx = true := by
      cases taken : i.dirInRx with
      | true => rfl
      | false => exact absurd ⟨taken,side⟩ idle
    have path : i.path = .relay := by simp [Inbound.path, side]
    have before := (placed.before untaken).1
    rw [path] at reached
    rw [reached, List.take_length] at before
    rw [processed, reached, List.take_length, Outbound.stream, o.directAfterMarker sound before, List.take_nil]
  | true =>
    have taken : i.dirInRx = false := by
      cases untaken : i.dirInRx with
      | false => rfl
      | true => exact absurd (placed.before untaken).2 (by simp [side])
    have path : i.path = .direct := by simp [Inbound.path, side]
    rw [path] at reached
    rw [processed, reached, (placed.after taken).1, List.take_length, List.take_length, Outbound.stream]

theorem Follows.markerHeard {sealed : Path → List Bytes} {i : Inbound} (follows : i.Follows sealed) :
    .cutover ∈ i.handled ↔ i.dirInRx = false := by
  have mem : .cutover ∈ i.handled ↔ .cutover ∈ controls (i.processed sealed) := by
    rw [← follows.heard, List.mem_map]
    constructor
    · intro heard
      exact ⟨.cutover,heard,rfl⟩
    · rintro ⟨entry,heard,same⟩
      cases entry with
      | control payload outcome => contradiction
      | cutover => exact heard
  rw [mem, processed]
  cases taken : i.dirInRx with
  | true =>
    obtain ⟨before,relay⟩ := follows.placed.before taken
    simpa [follows.placed.untouched relay] using before
  | false =>
    obtain ⟨reached,marked⟩ := follows.placed.after taken
    simp [reached, marked]

end Inbound
structure Linked (x y : Side) : Prop where
  mine : x.outbound.Sound
  theirs : y.outbound.Sound
  reads : x.inbound.Follows y.outbound.sealed
  read : y.inbound.Follows x.outbound.sealed
  sunk : x.inbound.Sunk
  peerSunk : y.inbound.Sunk

theorem Linked.swap {x y : Side} (linked : Linked x y) : Linked y x :=
  ⟨linked.theirs,linked.mine,linked.read,linked.reads,linked.peerSunk,linked.sunk⟩

theorem linkedStep {x y next : Side} {event : Event} (linked : Linked x y) (h : x.step y event = some next) : Linked next y := by
  cases event with
  | send event =>
    obtain ⟨o,step,rfl⟩ := Option.map_eq_some_iff.mp h
    have grown := x.outbound.grownStep linked.mine step
    exact ⟨x.outbound.soundStep linked.mine step,linked.theirs,linked.reads,linked.read.grown grown,linked.sunk,linked.peerSunk⟩
  | read event =>
    obtain ⟨i,step,rfl⟩ := Option.map_eq_some_iff.mp h
    exact ⟨linked.mine,linked.theirs,Inbound.followsStep linked.theirs linked.reads step,linked.read,
      Inbound.sunkStep linked.sunk step,linked.peerSunk⟩
  | install arrived =>
    simp only [Side.step] at h
    split at h <;> try contradiction
    cases Option.some.inj h
    exact ⟨linked.mine,linked.theirs,linked.reads,linked.read,linked.sunk,linked.peerSunk⟩

namespace Session

theorem runAppend (s : Session) (first later : List (Party × Event)) :
    s.run (first ++ later) = (s.run first).bind (fun middle => middle.run later) := List.foldlM_append

theorem linkedStart : Linked ({} : Session).a ({} : Session).b :=
  ⟨Outbound.soundStart,Outbound.soundStart,Inbound.followsStart,Inbound.followsStart,Inbound.sunkStart,Inbound.sunkStart⟩

theorem linkedRun {s next : Session} {events : List (Party × Event)} (start : Linked s.a s.b) (ran : s.run events = some next) :
    Linked next.a next.b := by
  induction events generalizing s with
  | nil =>
    cases Option.some.inj ran
    exact start
  | cons event rest ih =>
    obtain ⟨middle,first,later⟩ := Option.bind_eq_some_iff.mp ran
    refine ih ?_ later
    obtain ⟨who,event⟩ := event
    cases who with
    | a =>
      obtain ⟨x,step,rfl⟩ := Option.map_eq_some_iff.mp first
      exact linkedStep start step
    | b =>
      obtain ⟨x,step,rfl⟩ := Option.map_eq_some_iff.mp first
      exact (linkedStep start.swap step).swap

theorem linkedSide {s : Session} (linked : Linked s.a s.b) (who : Party) : Linked (s.side who) (s.peer who) := by
  cases who with
  | a => exact linked
  | b => exact linked.swap

end Session

/- The end of one direction: the sender met the end of its input and the reader, with every record of its path opened,
the end of that path. -/
def CleanEnd (x y : Side) : Prop :=
  x.outbound.phase = .ended ∧ y.inbound.phase = .ended ∧
  y.inbound.opened y.inbound.path = (x.outbound.sealed y.inbound.path).length

instance (x y : Side) : Decidable (CleanEnd x y) := inferInstanceAs (Decidable (_ ∧ _ ∧ _))

/- One direction, from `x` to `y`: the bytes, the control messages before the cutover, and the sink they are offered to. -/
structure Continuous (x y : Side) : Prop where
  carried : y.inbound.output <+: x.outbound.consumed
  ended : CleanEnd x y → y.inbound.output = x.outbound.consumed
  switched : y.inbound.onDirect = true → .cutover ∈ y.inbound.handled
  before : .cutover ∈ y.inbound.handled →
    beforeCutover (y.inbound.handled.map Handled.instruction) = beforeCutover x.outbound.queued
  kept : y.inbound.taken ++ y.inbound.controlIn = accepted y.inbound.handled
  dropped : ∀ front payload outcome later, y.inbound.handled = front ++ .control payload outcome :: later →
    outcome = .delivered ∨ outcome = .closed ∧ y.inbound.driverClosed = true ∨
    outcome = .full ∧ controlInChannelBound ≤ (accepted front).length

theorem Linked.carried {x y : Side} (linked : Linked x y) : y.inbound.output <+: x.outbound.consumed := by
  have opened : plain (y.inbound.processed x.outbound.sealed) <+: plain x.outbound.stream := by
    obtain ⟨later,split⟩ := linked.read.placed.processedPrefix
    rw [← split, plainAppend]
    exact List.prefix_append _ _
  exact (linked.read.carried.trans opened).trans linked.mine.carried

theorem Linked.ended {x y : Side} (linked : Linked x y) (clean : CleanEnd x y) : y.inbound.output = x.outbound.consumed := by
  obtain ⟨sent,read,reached⟩ := clean
  have alive := Inbound.aliveIn read (by simp)
  have idle : ¬(y.inbound.dirInRx = false ∧ y.inbound.onDirect = false) := by
    rw [← linked.read.waiting alive, read]
    simp
  have all := linked.read.placed.processedAll linked.mine idle reached
  calc y.inbound.output = y.inbound.output ++ y.inbound.phase.rest := by simp [read, ReadPhase.rest]
    _ = plain (y.inbound.processed x.outbound.sealed) := linked.read.whole alive
    _ = plain x.outbound.stream := by rw [all]
    _ = x.outbound.consumed := linked.mine.whole (Outbound.aliveIn sent (by simp))

theorem Linked.before {x y : Side} (linked : Linked x y) (heard : .cutover ∈ y.inbound.handled) :
    beforeCutover (y.inbound.handled.map Handled.instruction) = beforeCutover x.outbound.queued := by
  have taken := linked.read.markerHeard.mp heard
  obtain ⟨reached,marked⟩ := linked.read.placed.after taken
  rw [linked.read.heard, Inbound.processed, reached, List.take_length, controlsAppend]
  exact x.outbound.sentBeforeMarker linked.mine marked _

theorem Linked.switched {x y : Side} (linked : Linked x y) (direct : y.inbound.onDirect = true) : .cutover ∈ y.inbound.handled := by
  refine linked.read.markerHeard.mpr ?_
  cases taken : y.inbound.dirInRx with
  | false => rfl
  | true => exact absurd (linked.read.placed.before taken).2 (by simp [direct])

theorem cutoverContinuous {s : Session} {events : List (Party × Event)} (ran : Session.run {} events = some s) (who : Party) :
    Continuous (s.side who) (s.peer who) := by
  have linked := Session.linkedSide (Session.linkedRun Session.linkedStart ran) who
  exact ⟨linked.carried,linked.ended,linked.switched,linked.before,linked.peerSunk.kept,linked.peerSunk.dropped⟩

/- One byte over the relay, the cutover, one byte over the direct session and the end of the input. -/
def cutAcross : List (Party × Event) :=
  [(.a,.send (.readData [1] none)),(.a,.send .written),(.a,.send (.enqueue .cutover)),(.a,.send (.control none)),
    (.b,.read (.arrive (.record .relay 0) "")),(.a,.install true),(.a,.send (.direct none)),(.a,.send .written),
    (.a,.send (.readData [2] none)),(.a,.send .written),(.a,.send .readEnd),(.b,.read (.handed 1)),(.b,.read .flushed),
    (.b,.read (.arrive (.record .relay 1) "")),(.b,.install true),(.b,.read .direct),
    (.b,.read (.arrive (.record .direct 0) "")),(.b,.read (.handed 1)),(.b,.read .flushed),(.b,.read .broken)]

theorem cutAcrossContinuous : ∃ s, Session.run {} cutAcross = some s ∧ CleanEnd s.a s.b ∧ s.a.outbound.consumed = [1,2] ∧
    s.b.inbound.output = s.a.outbound.consumed := by
  have checked : (Session.run {} cutAcross).any (fun s => decide (CleanEnd s.a s.b ∧ s.a.outbound.consumed = [1,2])) = true := by
    decide +kernel
  obtain ⟨s,ran,holds⟩ := (Option.any_eq_true _ _).mp checked
  obtain ⟨clean,consumed⟩ := of_decide_eq_true holds
  exact ⟨s,ran,clean,consumed,(cutoverContinuous ran .a).ended clean⟩

/- A driver that reads nothing, with the messages of the peer one after the other. -/
def offer (nonce : Nat) : List (Party × Event) :=
  [(.a,.send (.enqueue (.send [1]))),(.a,.send (.control none)),(.a,.send .written),
    (.b,.read (.arrive (.record .relay nonce) ""))]

def filled (n : Nat) : Session where
  a := { outbound := {
    queued := List.replicate n (.send [1])
    sealed := Function.update (fun _ => []) .relay (List.replicate n [pumpTagControl,1]) } }
  b := { inbound := {
    opened := Function.update (fun _ => 0) .relay n
    controlIn := List.replicate n [1]
    handled := List.replicate n (.control [1] .delivered) } }

theorem filledNext {n : Nat} (room : n < controlInChannelBound) : (filled n).run (offer n) = some (filled (n + 1)) := by
  have last {α : Type} (x : α) : List.replicate n x ++ [x] = List.replicate (n + 1) x := List.replicate_succ'.symm
  have differs : ¬pumpTagControl = pumpTagCutover := by decide
  simp [Session.run, Session.step, offer, Side.step, Outbound.step, Outbound.takeControl, Outbound.sealFrame, filled, Outbound.path,
    Inbound.step, Inbound.arrive, Inbound.readMessage, Inbound.path, Inbound.receive, Inbound.receiveControl, Inbound.trySend, room,
    last, chunk, differs]

theorem filledRun {n : Nat} (room : n ≤ controlInChannelBound) :
    Session.run {} ((List.range n).flatMap offer) = some (filled n) := by
  induction n with
  | zero => simp [Session.run, filled]
  | succ n ih =>
    rw [List.range_succ, List.flatMap_append, List.flatMap_singleton, Session.runAppend, ih (by omega)]
    exact filledNext (by omega)

/- One message more, then the cutover. -/
def cutWhenFull : List (Party × Event) :=
  [(.a,.send (.enqueue (.send [9]))),(.a,.send (.enqueue .cutover)),(.a,.send (.control none)),(.a,.send .written),
    (.a,.send (.control none)),(.a,.install true),(.b,.install true),(.a,.send (.direct none)),(.a,.send .written),
    (.b,.read (.arrive (.record .relay 32) "")),(.b,.read (.arrive (.record .relay 33) "")),(.b,.read .direct)]

theorem queuedBeforeYetDropped : ∃ s, Session.run {} ((List.range 32).flatMap offer ++ cutWhenFull) = some s ∧
    s.a.outbound.queued = List.replicate 32 (.send [1]) ++ [.send [9],.cutover] ∧ s.b.inbound.onDirect = true ∧
    [9] ∉ s.b.inbound.taken ++ s.b.inbound.controlIn := by
  have checked : ((filled 32).run cutWhenFull).any (fun s => decide
      (s.a.outbound.queued = List.replicate 32 (.send [1]) ++ [.send [9],.cutover] ∧ s.b.inbound.onDirect = true ∧
      [9] ∉ s.b.inbound.taken ++ s.b.inbound.controlIn)) = true := by
    decide +kernel
  obtain ⟨s,ran,holds⟩ := (Option.any_eq_true _ _).mp checked
  refine ⟨s,?_,of_decide_eq_true holds⟩
  have first : Session.run {} ((List.range 32).flatMap offer) = some (filled 32) := filledRun (Nat.le_refl _)
  rw [Session.runAppend, first]
  exact ran

end CadsTunnel.Cutover
