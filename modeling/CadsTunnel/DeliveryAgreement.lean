import CadsTunnel.DeliverySound

/-! Two pumps against each other over a relay that may delay and cut either
direction. When a side returns its report, its whole input is in the peer's
output and the peer's whole input is in its own, unless the caller of one side
masks a failed read of its input as the unknown reason 0, which the peer reads as
a normal end. -/
namespace CadsTunnel.Delivery
open Words

namespace Side
variable {x x' peer : Side}

theorem receiveStreams (x : Side) (message : Bytes) :
    (x.receive message).wrote = x.wrote ∧ (x.receive message).seen = x.seen := by
  cases message with
  | nil => exact ⟨rfl,rfl⟩
  | cons tag body =>
    unfold receive receiveData receiveFin receiveFinAck receiveProgress
    dsimp only
    repeat' split
    all_goals exact ⟨rfl,rfl⟩

/- A side only ever appends to its stream, and reads the peer's stream record by record. -/
def Streams (x peer x' : Side) : Prop :=
  x.wrote <+: x'.wrote ∧
  (x'.seen = x.seen ∨ ∃ r, peer.wrote[x.seen.length]? = some r ∧ x'.seen = x.seen ++ [r])

theorem streamsSame (wrote : x'.wrote = x.wrote) (seen : x'.seen = x.seen) : Streams x peer x' :=
  ⟨⟨[],(List.append_nil _).trans wrote.symm⟩,.inl seen⟩

theorem finishStreams (x : Side) (write : Write) : Streams x peer (x.finish write) := by
  cases write <;> exact streamsSame rfl rfl

theorem actStreams {event : Event} (h : x.act peer event = some x') : Streams x peer x' := by
  cases event with
  | emit =>
    change x.emit = some x' at h
    unfold emit at h
    split at h <;> try contradiction
    split at h <;> try contradiction
    cases Option.some.inj h
    exact ⟨List.prefix_append _ _,.inl rfl⟩
  | written =>
    change x.written = some x' at h
    unfold written at h
    split at h <;> try contradiction
    split at h <;> try contradiction
    cases Option.some.inj h
    exact finishStreams x _
  | arrive =>
    obtain ⟨_,h⟩ := ifSome h
    unfold arrive at h
    split at h <;> try contradiction
    rename_i r next
    split at h <;> try contradiction
    cases Option.some.inj h
    obtain ⟨wrote,seen⟩ := receiveStreams { x with seen := x.seen ++ [r] } r.encode
    exact ⟨⟨[],(List.append_nil _).trans wrote.symm⟩,.inr ⟨r,next,seen⟩⟩
  | _ =>
    unfold act command tick readData readEnd readFailed writeFailed sealFailed readBroken delivered deliveryFailed
      inboundReturns watchdogReturns watchdogExpires join at h
    dsimp only at h
    repeat' split at h
    all_goals first
      | contradiction
      | cases Option.some.inj h; exact streamsSame rfl rfl

theorem prefixNext {seen wrote : List Record} {r : Record} (start : seen <+: wrote) (next : wrote[seen.length]? = some r) :
    seen ++ [r] <+: wrote := by
  obtain ⟨rest,rfl⟩ := start
  rw [List.getElem?_append_right (Nat.le_refl _), Nat.sub_self] at next
  cases rest with
  | nil => contradiction
  | cons first later =>
    cases Option.some.inj next
    exact ⟨later,by rw [List.append_assoc]; rfl⟩

end Side

structure Linked (x y : Side) : Prop where
  mine : Sound x
  theirs : Sound y
  read : x.seen <+: y.wrote
  delivered : y.seen <+: x.wrote

theorem Linked.swap {x y : Side} (linked : Linked x y) : Linked y x :=
  ⟨linked.theirs,linked.mine,linked.delivered,linked.read⟩

theorem linkedStep {x y x' : Side} {event : Event} (linked : Linked x y) (honest : event.masksFailure = false)
    (h : x.step y event = some x') : Linked x' y := by
  have sound := Side.soundStep linked.mine honest h
  rcases Side.stepCases h with ⟨_,_,_,rfl⟩ | ⟨_,act⟩
  · exact ⟨sound,linked.theirs,linked.read,linked.delivered⟩
  · obtain ⟨grows,seen⟩ := Side.actStreams act
    refine ⟨sound,linked.theirs,?_,linked.delivered.trans grows⟩
    rcases seen with same | ⟨r,next,same⟩
    · rw [same]
      exact linked.read
    · rw [same]
      exact Side.prefixNext linked.read next

namespace Session

theorem linkedRun {s s' : Session} {events : List (Party × Event)} (start : Linked s.a s.b)
    (honest : ∀ e ∈ events, e.2.masksFailure = false) (ran : s.run events = some s') : Linked s'.a s'.b := by
  induction events generalizing s with
  | nil =>
    cases Option.some.inj ran
    exact start
  | cons event rest ih =>
    obtain ⟨middle,first,later⟩ := Option.bind_eq_some_iff.mp ran
    refine ih ?_ (fun e mem => honest e (List.mem_cons_of_mem _ mem)) later
    have own := honest event List.mem_cons_self
    obtain ⟨who,event⟩ := event
    cases who with
    | a =>
      obtain ⟨x,step,rfl⟩ := Option.map_eq_some_iff.mp first
      exact linkedStep start own step
    | b =>
      obtain ⟨x,step,rfl⟩ := Option.map_eq_some_iff.mp first
      exact (linkedStep start.swap own step).swap

theorem linkedStart (idleA idleB : Nat) : Linked (start idleA idleB).a (start idleA idleB).b :=
  ⟨Side.soundStart idleA,Side.soundStart idleB,List.prefix_refl _,List.prefix_refl _⟩

theorem linkedSide {s : Session} (linked : Linked s.a s.b) (who : Party) : Linked (s.side who) (s.peer who) := by
  cases who with
  | a => exact linked
  | b => exact linked.swap

end Session

def NormalFin (records : List Record) : Prop := ∃ sent reason, .fin sent reason ∈ records ∧ reason.toByte = 0
def HasAck (records : List Record) : Prop := ∃ received, .finAck received ∈ records

/- Both inputs came to their end and each is the other side's output. -/
structure Delivered (x y : Side) (report : DeliveryReport) : Prop where
  ended : x.inputEnded = true
  sent : y.output = x.consumed
  sentCount : report.sent = .ofNat x.consumed.length
  peerEnded : y.inputEnded = true
  received : x.output = y.consumed
  receivedCount : report.received = .ofNat x.output.length

/- A FIN that the reader has accepted closes the writer's stream. -/
theorem acceptedFin {x y : Side} (reader : Sound x) (writer : Sound y) (start : x.seen <+: y.wrote)
    (theirFin : x.theirFin = true) : x.output = y.consumed ∧ NormalFin x.seen := by
  obtain ⟨p,sent,reason,q,seen,zero,output⟩ := reader.reads.fin theirFin
  obtain ⟨later,wrote⟩ := start
  have mem : .fin sent reason ∈ x.seen := by
    rw [seen]
    exact List.mem_append_right _ List.mem_cons_self
  have whole : y.wrote = (p ++ [.fin sent reason]) ++ (q ++ later) := by
    rw [← wrote, seen]
    simp
  have fin : HasFin (p ++ [.fin sent reason]) := ⟨sent,reason,List.mem_append_right _ List.mem_cons_self⟩
  have nothing := writer.writes.last _ _ whole fin
  have closed := writer.writes.closed ⟨sent,reason,wrote ▸ List.mem_append_left _ mem⟩
  have idle : inFlight y.pending = [] := by
    cases pending : y.pending with
    | none => rfl
    | some write =>
      cases write with
      | data bytes => exact absurd pending (closed.1 bytes)
      | _ => rfl
  have consumed := writer.writes.payload
  rw [idle, ite_self, List.append_nil, whole, payloadAppend, nothing, List.append_nil, payloadControl p rfl] at consumed
  exact ⟨output.trans consumed,sent,reason,mem,zero⟩

structure Accepted (x y : Side) : Prop where
  fin : NormalFin x.seen
  ack : HasAck x.seen
  peerFin : NormalFin y.seen

theorem reportDelivered {x y : Side} {report : DeliveryReport} (linked : Linked x y)
    (ok : x.result = some (.ok report)) : Delivered x y report ∧ Accepted x y := by
  obtain ⟨outbound,inbound,rfl⟩ := linked.mine.joined report ok
  simp only [Side.outboundDone, Bool.and_eq_true, Option.isNone_iff_eq_none, Bool.not_eq_true'] at outbound
  simp only [Side.inboundDone, Bool.and_eq_true, decide_eq_true_eq] at inbound
  obtain ⟨⟨pending,shut⟩,_⟩ := outbound
  obtain ⟨⟨reading,theirFin⟩,confirmed⟩ := inbound
  obtain ⟨received,fin⟩ := acceptedFin linked.mine linked.theirs linked.read theirFin
  obtain ⟨n,ack⟩ := linked.mine.reads.ack confirmed
  -- The peer wrote an acknowledgement, so it has accepted this side's FIN and did not abort.
  have accepted := linked.theirs.signals.ackWrote n (linked.read.subset ack)
  obtain ⟨sent,peerFin⟩ := acceptedFin linked.theirs linked.mine linked.delivered accepted
  obtain ⟨announced,reason,mem,zero⟩ := fin
  refine ⟨⟨linked.mine.writes.shut (.inl shut),sent,?_,?_,received,?_⟩,⟨announced,reason,mem,zero⟩,⟨n,ack⟩,peerFin⟩
  · have count := linked.mine.writes.count
    rw [pending] at count
    simpa [inFlight] using count
  · rcases linked.theirs.signals.finWrote announced reason (linked.read.subset mem) zero with ended | aborting
    · exact ended
    · rw [linked.theirs.signals.abortOpen aborting] at accepted
      contradiction
  · exact Side.steadyCount linked.mine (by rw [reading]; rfl)

theorem seenBeforeCut {x y : Side} (reader : Sound x) (start : x.seen <+: y.wrote) {k : Nat} (cut : x.cut = some k) :
    x.seen ⊆ y.wrote.take k := by
  rw [List.prefix_iff_eq_take.mp start]
  exact (List.take_prefix_take_left (reader.bound k cut)).subset

/- At the cut no record arrives. -/
theorem arriveAtCut {x y : Side} (atCut : x.atCut y = true) : x.arrive y = none := by
  unfold Side.arrive
  split <;> try rfl
  rename_i r next
  simp only [Side.atCut, Bool.or_eq_true, Bool.and_eq_true, decide_eq_true_eq] at atCut
  rcases atCut with cut | ⟨_,read⟩
  · simp [cut]
  · rw [read, List.getElem?_eq_none (Nat.le_refl _)] at next
    contradiction

namespace Session

theorem deliveryAgreement (idleA idleB : Nat) (events : List (Party × Event)) (s : Session)
    (ran : (start idleA idleB).run events = some s) (honest : ∀ e ∈ events, e.2.masksFailure = false) (who : Party) :
    let x := s.side who
    let y := s.peer who
    (∀ report, x.result = some (.ok report) → Delivered x y report) ∧
    (∀ k, x.cut = some k → ¬ (NormalFin (y.wrote.take k) ∧ HasAck (y.wrote.take k)) →
      ∀ report, x.result ≠ some (.ok report)) ∧
    (∀ k, y.cut = some k → ¬ NormalFin (x.wrote.take k) → ∀ report, x.result ≠ some (.ok report)) ∧
    (x.result = none → x.atRead = true → x.atCut y = true → ∀ error, ∃ x', x.step y (.readBroken error) = some x' ∧
      x'.result = some (.error (x.transportEnded error)) ∧ x.step y .arrive = none) := by
  intro x y
  have linked : Linked x y := linkedSide (linkedRun (linkedStart idleA idleB) honest ran) who
  refine ⟨fun report ok => (reportDelivered linked ok).1,?_,?_,?_⟩
  · intro k cut missing report ok
    obtain ⟨_,⟨sent,reason,fin,zero⟩,⟨received,ack⟩,_⟩ := reportDelivered linked ok
    have before := seenBeforeCut linked.mine linked.read cut
    exact missing ⟨⟨sent,reason,before fin,zero⟩,received,before ack⟩
  · intro k cut missing report ok
    obtain ⟨_,_,_,sent,reason,fin,zero⟩ := reportDelivered linked ok
    exact missing ⟨sent,reason,seenBeforeCut linked.theirs linked.delivered cut fin,zero⟩
  · intro alive atRead atCut error
    refine ⟨x.fail (x.transportEnded error),?_,rfl,?_⟩
    · simp only [Side.step, alive, if_true, Side.act, atRead, Side.readBroken, atCut]
    · simp only [Side.step, alive, if_true, Side.act, atRead, arriveAtCut atCut]

/- B has nothing to say and ends first; A acknowledges that, and then sends two bytes. -/
def opening : List (Party × Event) :=
  [(.b,.readEnd .normal),(.b,.emit),(.b,.written),(.a,.arrive),(.a,.delivered),(.a,.command),(.a,.emit),(.a,.written),
   (.a,.readData [1,2]),(.a,.emit),(.a,.written),(.b,.arrive),(.b,.arrive),(.b,.delivered)]

/- A ends its input, B confirms, and both sides return. -/
def ending : List (Party × Event) :=
  [(.a,.readEnd .normal),(.a,.emit),(.a,.written),(.b,.arrive),(.b,.delivered),(.b,.command),(.b,.emit),(.b,.written),
   (.b,.watchdogReturns),(.b,.join),(.a,.arrive),(.a,.watchdogReturns),(.a,.join)]

theorem exchangeDelivered : ∃ s, (start 60 60).run (opening ++ ending) = some s ∧
    s.a.result = some (.ok ⟨2,0⟩) ∧ s.b.output = s.a.consumed ∧ s.a.consumed = [1,2] := by
  have ran : ((start 60 60).run (opening ++ ending)).isSome = true := by decide +kernel
  obtain ⟨s,ran⟩ := Option.isSome_iff_exists.mp ran
  have result : ((start 60 60).run (opening ++ ending)).map (fun s => s.a.result) = some (some (.ok ⟨2,0⟩)) := by
    decide +kernel
  have consumed : ((start 60 60).run (opening ++ ending)).map (fun s => s.a.consumed) = some [1,2] := by decide +kernel
  rw [ran] at result consumed
  have ok : s.a.result = some (.ok ⟨2,0⟩) := Option.some.inj result
  have honest : ∀ e ∈ opening ++ ending, e.2.masksFailure = false := by decide
  exact ⟨s,ran,ok,((deliveryAgreement 60 60 _ s ran honest .a).1 _ ok).sent,Option.some.inj consumed⟩

/- A's input breaks after two bytes. Its caller names the unknown reason 0, so the
abort goes out as a normal FIN and B reports a complete delivery. -/
def masked : List (Party × Event) :=
  [(.a,.readFailed ⟨.other,"reset"⟩ (.unknown 0)),(.a,.emit),(.b,.arrive),(.b,.delivered),(.b,.command),(.b,.emit),
   (.b,.written),(.b,.watchdogReturns),(.b,.join),(.a,.written)]

theorem maskedFailureDelivered : ∃ s, (start 60 60).run (opening ++ masked) = some s ∧
    s.b.result = some (.ok ⟨0,2⟩) ∧ s.a.inputEnded = false ∧ ¬ Delivered s.b s.a ⟨0,2⟩ := by
  have ran : ((start 60 60).run (opening ++ masked)).isSome = true := by decide +kernel
  obtain ⟨s,ran⟩ := Option.isSome_iff_exists.mp ran
  have result : ((start 60 60).run (opening ++ masked)).map (fun s => s.b.result) = some (some (.ok ⟨0,2⟩)) := by
    decide +kernel
  have unended : ((start 60 60).run (opening ++ masked)).map (fun s => s.a.inputEnded) = some false := by decide +kernel
  rw [ran] at result unended
  have broken : s.a.inputEnded = false := Option.some.inj unended
  refine ⟨s,ran,Option.some.inj result,broken,fun delivered => ?_⟩
  rw [delivered.peerEnded] at broken
  contradiction

end Session
end CadsTunnel.Delivery
