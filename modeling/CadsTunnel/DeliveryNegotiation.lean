import CadsTunnel.ChannelObjects
import CadsTunnel.DeliveryRecords

/-! The capability negotiation inside the agent-to-agent handshake. The Noise library
is a parameter; the handshake functions are run against each other over a byte
stream. A later version of either end is a peer that announces its set in a payload
with another version byte, further bits and further bytes behind it. -/
namespace CadsTunnel.Delivery
open Words

def capsMagic : Bytes := asBytes "CTC"

def capsVersion : UInt8 := 1

def capDeliveryAck : UInt16 := 0x0001

structure SessionCaps where
  flags : UInt16
  deriving DecidableEq, Repr

namespace SessionCaps

def none : SessionCaps := ⟨0⟩

def deliveryAckOnly : SessionCaps := ⟨capDeliveryAck⟩

def intersect (c other : SessionCaps) : SessionCaps := ⟨c.flags &&& other.flags⟩

def toPayload (c : SessionCaps) : Bytes :=
  if c.flags = 0 then [] else capsMagic ++ ([capsVersion] ++ be 2 c.flags.toNat)

def fromPayload (payload : Bytes) : Option SessionCaps :=
  if payload.length < 6 ∨ payload.take 3 ≠ capsMagic ∨ payload.getD 3 0 = 0 then .none
  else some ⟨.ofNat (readBE [payload.getD 4 0,payload.getD 5 0])⟩

end SessionCaps

/- What the code uses of the Noise library. Errors carry their text, and a buffer
is given by its size. -/
structure Snow (State Transport : Type) where
  publicKey : Key → Key
  initiator : Key → Key → Except String State
  responder : Key → Except String State
  writeMessage : State → Bytes → Nat → Except String (Bytes × State)
  readMessage : State → Bytes → Nat → Except String (Bytes × State)
  getRemoteStatic : State → Option Key
  intoTransportMode : State → Except String Transport

def noiseIo (e : String) : IoError := ⟨.invalidData,s!"noise: {e}"⟩

def frame (body : Bytes) : Bytes := be 2 body.length ++ body

def earlyEof : IoError := ⟨.unexpectedEof,"early eof"⟩

def readFrame (recv : Bytes) : Except IoError Bytes :=
  if recv.length < 2 then .error earlyEof
  else
    let n := readBE (recv.take 2)
    if (recv.drop 2).length < n then .error earlyEof else .ok ((recv.drop 2).take n)

/- The handshake buffers of this crate. -/
def handshakeBuffer : Nat := 1024

section Handshake
variable {State Transport Agreed : Type} (snow : Snow State Transport)

/- An end that has sent its bytes and continues with what the peer sends. -/
structure Waiting (α : Type) where
  sent : Bytes
  resume : Bytes → Except IoError α

def Waiting.map {α β : Type} (f : α → β) (w : Waiting α) : Waiting β := ⟨w.sent,fun recv => (w.resume recv).map f⟩

/- The initiator from message 2 on. -/
def initiateFinish (buffer : Nat) (hs : State) (recv : Bytes) : Except IoError (Transport × Bytes) := do
  let m2 ← readFrame recv
  let read ← (snow.readMessage hs m2 buffer).mapError noiseIo
  return (← (snow.intoTransportMode read.2).mapError noiseIo,read.1)

def initiateWithPayload (buffer : Nat) (ownNoisePrivate peerNoisePubkey : Key) (payload : Bytes) :
    Except IoError (Waiting (Transport × Bytes)) := do
  let hs ← (snow.initiator ownNoisePrivate peerNoisePubkey).mapError noiseIo
  let written ← (snow.writeMessage hs payload buffer).mapError noiseIo
  return ⟨frame written.1,initiateFinish snow buffer written.2⟩

def a2aInitiate (ownNoisePrivate peerNoisePubkey : Key) : Except IoError (Waiting Transport) :=
  (initiateWithPayload snow handshakeBuffer ownNoisePrivate peerNoisePubkey []).map (Waiting.map Prod.fst)

/- What the initiator takes from the answer: intersected again with its offer. -/
def agreedByAnswer (offer : SessionCaps) (answer : Bytes) : SessionCaps :=
  ((SessionCaps.fromPayload answer).map fun a => a.intersect offer).getD .none

def a2aInitiateWithCaps (ownNoisePrivate peerNoisePubkey : Key) (offer : SessionCaps) :
    Except IoError (Waiting (Transport × SessionCaps)) :=
  (initiateWithPayload snow handshakeBuffer ownNoisePrivate peerNoisePubkey offer.toPayload).map
    (Waiting.map fun finished => (finished.1,agreedByAnswer offer finished.2))

/- Message 1 read and message 2 written into the buffer. The closure that turns the
offer into the answer also leaves what was agreed. -/
def respondMessage (buffer : Nat) (ownNoisePrivate : Key) (answer : Bytes → Bytes × Agreed) (recv : Bytes) :
    Except IoError ((Bytes × State) × Key × Agreed) := do
  let hs ← (snow.responder ownNoisePrivate).mapError noiseIo
  let m1 ← readFrame recv
  let read ← (snow.readMessage hs m1 buffer).mapError noiseIo
  match snow.getRemoteStatic read.2 with
  | none => .error ⟨.named "panic","Noise_IK responder always learns a 32-byte remote static from message 1"⟩
  | some peerStatic =>
    return (← (snow.writeMessage read.2 (answer read.1).1 buffer).mapError noiseIo,peerStatic,(answer read.1).2)

/- A responder leaves what it has sent, whether or not it then finishes. -/
def respondWithAnswer (buffer : Nat) (ownNoisePrivate : Key) (answer : Bytes → Bytes × Agreed) (recv : Bytes) :
    Bytes × Except IoError (Transport × Key × Agreed) :=
  match respondMessage snow buffer ownNoisePrivate answer recv with
  | .error e => ([],.error e)
  | .ok written =>
    (frame written.1.1,((snow.intoTransportMode written.1.2).mapError noiseIo).map fun t => (t,written.2))

def checkExpectedPeer (peerStatic expectedPeerNoisePubkey : Key) : Except IoError Unit :=
  if peerStatic ≠ expectedPeerNoisePubkey then
    .error ⟨.invalidData,"a2a: peer completed the handshake with a static key that doesn't match the " ++
      "channel-attested member key (#416)"⟩
  else .ok ()

/- The key is checked after message 2 has gone out. -/
def verified (expectedPeerNoisePubkey : Key) (answered : Bytes × Except IoError (Transport × Key × Agreed)) :
    Bytes × Except IoError (Transport × Agreed) :=
  (answered.1,answered.2.bind fun finished =>
    (checkExpectedPeer finished.2.1 expectedPeerNoisePubkey).map fun _ => (finished.1,finished.2.2))

def a2aRespondWithPeerKey (ownNoisePrivate : Key) (recv : Bytes) : Bytes × Except IoError (Transport × Key × Unit) :=
  respondWithAnswer snow handshakeBuffer ownNoisePrivate (fun _ => ([],())) recv

def a2aRespondVerified (ownNoisePrivate expectedPeerNoisePubkey : Key) (recv : Bytes) :
    Bytes × Except IoError (Transport × Unit) :=
  verified expectedPeerNoisePubkey (a2aRespondWithPeerKey snow ownNoisePrivate recv)

/- What the responder agrees to on an offer. -/
def agreedByOffer (own : SessionCaps) (offer : Bytes) : SessionCaps :=
  ((SessionCaps.fromPayload offer).map fun o => o.intersect own).getD .none

def a2aRespondVerifiedWithCaps (ownNoisePrivate expectedPeerNoisePubkey : Key) (own : SessionCaps) (recv : Bytes) :
    Bytes × Except IoError (Transport × SessionCaps) :=
  verified expectedPeerNoisePubkey (respondWithAnswer snow handshakeBuffer ownNoisePrivate
    (fun offer => ((agreedByOffer own offer).toPayload,agreedByOffer own offer)) recv)

/- Both ends on one stream. -/
def handshake {α β : Type} (initiate : Except IoError (Waiting α)) (respond : Bytes → Bytes × Except IoError β) :
    Except IoError α × Except IoError β :=
  match initiate with
  | .error e => (.error e,(respond []).2)
  | .ok w => (w.resume (respond w.sent).1,(respond w.sent).2)

end Handshake

/- The longest Noise message. -/
def maxMessage : Nat := 65535

section Library
variable {State Transport : Type}

/- A message of one end read by the other: it is `overhead` bytes longer than its payload, and
it is read into a buffer that holds the payload and into no smaller one. -/
def Snow.Carries (snow : Snow State Transport) (writer reader : State) (overhead : Nat)
    (next : State → State → Prop) : Prop :=
  ∀ payload size, payload.length + overhead ≤ size → size ≤ maxMessage →
    ∃ message writer' reader', snow.writeMessage writer payload size = .ok (message,writer') ∧
      message.length = payload.length + overhead ∧
      (∀ buffer, payload.length ≤ buffer → snow.readMessage reader message buffer = .ok (payload,reader')) ∧
      (∀ buffer, buffer < payload.length → ∃ e, snow.readMessage reader message buffer = .error e) ∧
      next writer' reader'

/- The documented course of a `Noise_IK` handshake between holders of the keys they expect. -/
def Snow.RunsIK (snow : Snow State Transport) : Prop :=
  ∀ a b, ∃ i r, snow.initiator a (snow.publicKey b) = .ok i ∧ snow.responder b = .ok r ∧
    snow.Carries i r 96 fun i r => snow.getRemoteStatic r = some (snow.publicKey a) ∧
      snow.Carries r i 48 fun r i =>
        (∃ t, snow.intoTransportMode i = .ok t) ∧ ∃ t, snow.intoTransportMode r = .ok t

end Library

/- How a later version announces a set: a version byte of its own and bytes behind the flags,
as many as a handshake message holds. -/
structure Extension where
  version : UInt8
  numbered : version ≠ 0
  extra : Bytes
  holds : extra.length + 102 ≤ maxMessage

def Extension.announce (e : Extension) (flags : UInt16) : Bytes :=
  capsMagic ++ ([e.version] ++ (be 2 flags.toNat ++ e.extra))

inductive Initiator where
  | legacy
  | current (offer : SessionCaps)
  | later (offer : SessionCaps) (e : Extension)

inductive Responder where
  | legacy
  | current (own : SessionCaps)
  | later (own : SessionCaps) (further : UInt16) (e : Extension)

namespace Initiator

def caps : Initiator → SessionCaps
  | .legacy => .none
  | .current offer => offer
  | .later offer _ => offer

def payload : Initiator → Bytes
  | .legacy => []
  | .current offer => offer.toPayload
  | .later offer e => e.announce offer.flags

def buffer : Initiator → Nat
  | .legacy => handshakeBuffer
  | .current _ => handshakeBuffer
  | .later .. => maxMessage

def start {State Transport : Type} (snow : Snow State Transport) (ownNoisePrivate peerNoisePubkey : Key) :
    Initiator → Except IoError (Waiting (Transport × SessionCaps))
  | .legacy => (a2aInitiate snow ownNoisePrivate peerNoisePubkey).map (Waiting.map fun t => (t,.none))
  | .current offer => a2aInitiateWithCaps snow ownNoisePrivate peerNoisePubkey offer
  | .later offer e =>
    (initiateWithPayload snow maxMessage ownNoisePrivate peerNoisePubkey (e.announce offer.flags)).map
      (Waiting.map fun finished => (finished.1,agreedByAnswer offer finished.2))

end Initiator

namespace Responder

def caps : Responder → SessionCaps
  | .legacy => .none
  | .current own => own
  | .later own .. => own

/- A later version may add bits that were not offered. -/
def reply : Responder → Bytes → Bytes
  | .legacy, _ => []
  | .current own, offer => (agreedByOffer own offer).toPayload
  | .later own further e, offer =>
    match SessionCaps.fromPayload offer with
    | some o => e.announce ((o.intersect own).flags ||| (further &&& ~~~o.flags))
    | none => []

def buffer : Responder → Nat
  | .legacy => handshakeBuffer
  | .current _ => handshakeBuffer
  | .later .. => maxMessage

def answer {State Transport : Type} (snow : Snow State Transport) (ownNoisePrivate expectedPeerNoisePubkey : Key)
    (recv : Bytes) : Responder → Bytes × Except IoError (Transport × SessionCaps)
  | .legacy =>
    let answered := a2aRespondVerified snow ownNoisePrivate expectedPeerNoisePubkey recv
    (answered.1,answered.2.map fun finished => (finished.1,.none))
  | .current own => a2aRespondVerifiedWithCaps snow ownNoisePrivate expectedPeerNoisePubkey own recv
  | .later own further e =>
    verified expectedPeerNoisePubkey (respondWithAnswer snow maxMessage ownNoisePrivate
      (fun offer => ((Responder.later own further e).reply offer,agreedByOffer own offer)) recv)

end Responder

/- Each payload fits the buffer it is read into. -/
def Fits (i : Initiator) (r : Responder) : Prop :=
  i.payload.length ≤ r.buffer ∧ (r.reply i.payload).length ≤ i.buffer

section Payloads

theorem announceLength (e : Extension) (flags : UInt16) : (e.announce flags).length = 6 + e.extra.length := by
  have magic : capsMagic.length = 3 := rfl
  simp only [Extension.announce, List.length_append, List.length_cons, List.length_nil, beLength, magic]
  omega

theorem toPayloadLength (c : SessionCaps) : c.toPayload.length ≤ 6 := by
  have magic : capsMagic.length = 3 := rfl
  unfold SessionCaps.toPayload
  split
  · exact Nat.zero_le 6
  · simp only [List.length_append, List.length_cons, List.length_nil, beLength, magic]
    exact Nat.le_refl 6

theorem fromPayloadFields (version : UInt8) (numbered : version ≠ 0) (flags : UInt16) (extra : Bytes) :
    SessionCaps.fromPayload (capsMagic ++ ([version] ++ (be 2 flags.toNat ++ extra))) = some ⟨flags⟩ := by
  have magic : capsMagic = [67,84,67] := rfl
  obtain ⟨high,low,two⟩ := List.length_eq_two.mp (beLength 2 flags.toNat)
  have read : UInt16.ofNat (readBE [high,low]) = flags := by
    rw [← two, readBeBounded flags.toNat_lt, UInt16.ofNat_toNat]
  rw [two, magic]
  simp [SessionCaps.fromPayload, magic, numbered, read]

theorem fromAnnounce (e : Extension) (flags : UInt16) : SessionCaps.fromPayload (e.announce flags) = some ⟨flags⟩ :=
  fromPayloadFields e.version e.numbered flags e.extra

theorem fromEmpty : SessionCaps.fromPayload [] = none := rfl

/- The empty set and the empty payload mean the same to a reader. -/
theorem fromToPayload (c : SessionCaps) : (SessionCaps.fromPayload c.toPayload).getD .none = c := by
  unfold SessionCaps.toPayload
  split
  · rename_i empty
    rw [fromEmpty]
    exact congrArg SessionCaps.mk empty.symm
  · rw [← List.append_nil (be 2 c.flags.toNat), fromPayloadFields capsVersion (by decide)]
    rfl

/- The set a payload announces to a reader. -/
def announced (payload : Bytes) : SessionCaps := (SessionCaps.fromPayload payload).getD .none

theorem agreedByOfferEq (own : SessionCaps) (offer : Bytes) : agreedByOffer own offer = (announced offer).intersect own := by
  unfold agreedByOffer announced
  cases SessionCaps.fromPayload offer with
  | none => simp [SessionCaps.none, SessionCaps.intersect]
  | some o => rfl

theorem agreedByAnswerEq (offer : SessionCaps) (answer : Bytes) :
    agreedByAnswer offer answer = (announced answer).intersect offer := agreedByOfferEq offer answer

theorem announcedPayload (i : Initiator) : announced i.payload = i.caps := by
  cases i with
  | legacy => rfl
  | current offer => exact fromToPayload offer
  | later offer e =>
    rw [Initiator.payload, announced, fromAnnounce]
    rfl

theorem maskedTwice (a b : UInt16) : a &&& b &&& a = a &&& b := by
  rw [UInt16.and_comm (a &&& b) a, ← UInt16.and_assoc, UInt16.and_self]

/- Bits outside the offer fall away when the initiator intersects again. -/
theorem furtherBitsDropped (o own further : UInt16) : (o &&& own ||| (further &&& ~~~o)) &&& o = o &&& own := by
  refine UInt16.eq_of_toBitVec_eq (BitVec.eq_of_getLsbD_eq ?_)
  intro i inside
  simp only [UInt16.toBitVec_and, UInt16.toBitVec_or, UInt16.toBitVec_not, BitVec.getLsbD_and, BitVec.getLsbD_or,
    BitVec.getLsbD_not, inside, decide_true, Bool.true_and]
  cases o.toBitVec.getLsbD i <;> cases own.toBitVec.getLsbD i <;> simp

theorem replyAnnounces (r : Responder) (offer : Bytes) :
    (announced (r.reply offer)).intersect (announced offer) = (announced offer).intersect r.caps := by
  cases r with
  | legacy => simp [Responder.reply, Responder.caps, announced, fromEmpty, SessionCaps.intersect, SessionCaps.none]
  | current own =>
    have back : announced (agreedByOffer own offer).toPayload = agreedByOffer own offer := fromToPayload _
    rw [Responder.reply, back, agreedByOfferEq]
    exact congrArg SessionCaps.mk (maskedTwice _ _)
  | later own further e =>
    simp only [Responder.reply, Responder.caps, announced]
    cases SessionCaps.fromPayload offer with
    | none => simp [fromEmpty, SessionCaps.intersect, SessionCaps.none]
    | some o =>
      simp only [fromAnnounce, Option.getD_some]
      exact congrArg SessionCaps.mk (furtherBitsDropped o.flags own.flags further)

end Payloads

namespace Initiator

def verdict : Initiator → Bytes → SessionCaps
  | .legacy, _ => .none
  | .current offer, answer => agreedByAnswer offer answer
  | .later offer _, answer => agreedByAnswer offer answer

theorem verdictReply (i : Initiator) (r : Responder) : i.verdict (r.reply i.payload) = i.caps.intersect r.caps := by
  have agreed : (announced (r.reply i.payload)).intersect i.caps = i.caps.intersect r.caps := by
    have same := replyAnnounces r i.payload
    rwa [announcedPayload] at same
  cases i with
  | legacy => simp [verdict, caps, SessionCaps.intersect, SessionCaps.none]
  | current offer => rw [verdict, agreedByAnswerEq]; exact agreed
  | later offer e => rw [verdict, agreedByAnswerEq]; exact agreed

theorem startEq {State Transport : Type} (snow : Snow State Transport) (i : Initiator) (own peer : Key) :
    i.start snow own peer = (initiateWithPayload snow i.buffer own peer i.payload).map
      (Waiting.map fun finished => (finished.1,i.verdict finished.2)) := by
  cases i with
  | legacy =>
    rw [start, a2aInitiate, payload, buffer]
    cases initiateWithPayload snow handshakeBuffer own peer [] with
    | error e => rfl
    | ok w =>
      refine congrArg (fun resume => Except.ok (Waiting.mk w.sent resume)) (funext ?_)
      intro recv
      change ((w.resume recv).map Prod.fst).map _ = (w.resume recv).map _
      cases w.resume recv <;> rfl
  | current offer => rfl
  | later offer e => rfl

end Initiator

namespace Responder

def agreed : Responder → Bytes → SessionCaps
  | .legacy, _ => .none
  | .current own, offer => agreedByOffer own offer
  | .later own .., offer => agreedByOffer own offer

theorem agreedPayload (i : Initiator) (r : Responder) : r.agreed i.payload = i.caps.intersect r.caps := by
  cases r with
  | legacy => simp [agreed, caps, SessionCaps.intersect, SessionCaps.none]
  | current own => rw [agreed, agreedByOfferEq, announcedPayload]; rfl
  | later own further e => rw [agreed, agreedByOfferEq, announcedPayload]; rfl

/- What is agreed does not touch the messages. -/
theorem respondAgreed {State Transport Agreed Other : Type} (snow : Snow State Transport) (buffer : Nat) (own : Key)
    (answer : Bytes → Bytes × Agreed) (g : Agreed → Other) (recv : Bytes) :
    respondMessage snow buffer own (fun offer => ((answer offer).1,g (answer offer).2)) recv =
      (respondMessage snow buffer own answer recv).map fun written => (written.1,written.2.1,g written.2.2) := by
  unfold respondMessage
  cases (snow.responder own).mapError noiseIo with
  | error e => rfl
  | ok hs =>
    cases readFrame recv with
    | error e => rfl
    | ok m1 =>
      simp only [bind, Except.bind]
      cases (snow.readMessage hs m1 buffer).mapError noiseIo with
      | error e => rfl
      | ok read =>
        simp only
        cases snow.getRemoteStatic read.2 with
        | none => rfl
        | some peer =>
          simp only
          cases (snow.writeMessage read.2 (answer read.1).1 buffer).mapError noiseIo <;> rfl

theorem answerEq {State Transport : Type} (snow : Snow State Transport) (r : Responder) (own expected : Key)
    (recv : Bytes) :
    r.answer snow own expected recv = verified expected (respondWithAnswer snow r.buffer own
      (fun offer => (r.reply offer,r.agreed offer)) recv) := by
  cases r with
  | legacy =>
    have message := respondAgreed snow handshakeBuffer own (fun _ => ([],())) (fun _ => SessionCaps.none) recv
    change (_,((verified expected (respondWithAnswer snow handshakeBuffer own (fun _ => ([],())) recv)).2).map _) =
      verified expected (respondWithAnswer snow handshakeBuffer own (fun _ => ([],SessionCaps.none)) recv)
    simp only [a2aRespondVerified, a2aRespondWithPeerKey, verified, respondWithAnswer, message]
    cases respondMessage snow handshakeBuffer own (fun _ => ([],())) recv with
    | error e => rfl
    | ok written =>
      simp only [Except.map]
      cases (snow.intoTransportMode written.1.2).mapError noiseIo with
      | error e => rfl
      | ok t =>
        simp only [Except.bind]
        cases checkExpectedPeer written.2.1 expected <;> rfl
  | current own => rfl
  | later own further e => rfl

end Responder

theorem readFrameFrame {body : Bytes} (small : body.length ≤ maxMessage) : readFrame (frame body) = .ok body := by
  have bound : body.length < 256 ^ 2 := Nat.lt_of_le_of_lt small (by decide)
  have header : (frame body).take 2 = be 2 body.length := List.take_left' (beLength 2 _)
  have rest : (frame body).drop 2 = body := List.drop_left' (beLength 2 _)
  have length : ¬(frame body).length < 2 := by
    rw [frame, List.length_append, beLength]
    omega
  rw [readFrame, if_neg length, header, rest, readBeBounded bound]
  simp

section Exchange
variable {State Transport Agreed Verdict : Type} {snow : Snow State Transport} {a b : Key} {atInitiator atResponder : Nat}
  {payload : Bytes} {reply : Bytes → Bytes}

/- Message 1 on its way: what the initiator waits for and what the responder makes of it. -/
structure Opened (Agreed : Type) (snow : Snow State Transport) (a b : Key) (atInitiator atResponder : Nat) (payload : Bytes)
    (message : Bytes) (i r : State) : Prop where
  sent : initiateWithPayload snow atInitiator a (snow.publicKey b) payload =
    .ok ⟨frame message,initiateFinish snow atInitiator i⟩
  answered : payload.length ≤ atResponder → ∀ answer : Bytes → Bytes × Agreed,
    respondMessage snow atResponder b answer (frame message) =
      do return (← (snow.writeMessage r (answer payload).1 atResponder).mapError noiseIo,snow.publicKey a,(answer payload).2)
  refused : atResponder < payload.length → ∀ answer : Bytes → Bytes × Agreed,
    ∃ e, respondMessage snow atResponder b answer (frame message) = .error e
  continues : snow.Carries r i 48 fun r i => (∃ t, snow.intoTransportMode i = .ok t) ∧ ∃ t, snow.intoTransportMode r = .ok t

theorem opens (Agreed : Type) (a b : Key) (atResponder : Nat) (ik : snow.RunsIK) (room : payload.length + 96 ≤ atInitiator) (bound : atInitiator ≤ maxMessage) :
    ∃ message i r, Opened Agreed snow a b atInitiator atResponder payload message i r := by
  obtain ⟨i,r,opened,listening,carries⟩ := ik a b
  obtain ⟨message,i1,r1,written,length,read,short,learned,continues⟩ := carries payload atInitiator room bound
  have framed : readFrame (frame message) = .ok message := readFrameFrame (by omega)
  refine ⟨message,i1,r1,?_,?_,?_,continues⟩
  · simp only [initiateWithPayload, opened, Except.mapError, bind, Except.bind, written]
    rfl
  · intro fits answer
    simp only [respondMessage, listening, framed, read atResponder fits, Except.mapError, learned, bind, Except.bind]
  · intro long answer
    obtain ⟨e,failed⟩ := short atResponder long
    refine ⟨noiseIo e,?_⟩
    simp only [respondMessage, listening, framed, failed, Except.mapError, bind, Except.bind]

theorem initiatorFinishes {message : Bytes} {i : State} {t : Transport} {answer : Bytes × State}
    (small : message.length ≤ maxMessage) (read : snow.readMessage i message atInitiator = .ok answer)
    (ready : snow.intoTransportMode answer.2 = .ok t) :
    initiateFinish snow atInitiator i (frame message) = .ok (t,answer.1) := by
  simp only [initiateFinish, readFrameFrame small, read, ready, Except.mapError, bind, Except.bind]
  rfl

/- Whether both finish depends on the two buffers alone. -/
theorem exchange (ik : snow.RunsIK) (verdict : Bytes → Verdict) (agreed : Bytes → Agreed)
    (first : payload.length + 96 ≤ atInitiator) (bound : atInitiator ≤ maxMessage)
    (second : (reply payload).length + 48 ≤ atResponder) (bound' : atResponder ≤ maxMessage) :
    let out := handshake ((initiateWithPayload snow atInitiator a (snow.publicKey b) payload).map
        (Waiting.map fun finished => (finished.1,verdict finished.2)))
      (fun recv => verified (snow.publicKey a) (respondWithAnswer snow atResponder b
        (fun offer => (reply offer,agreed offer)) recv))
    (payload.length ≤ atResponder ∧ (reply payload).length ≤ atInitiator →
      ∃ ti tr, out = (.ok (ti,verdict (reply payload)),.ok (tr,agreed payload))) ∧
    (¬(payload.length ≤ atResponder ∧ (reply payload).length ≤ atInitiator) →
      (∃ e, out.1 = .error e) ∨ ∃ e, out.2 = .error e) := by
  obtain ⟨m1,i,r,sent,answered,refused,continues⟩ := opens Agreed a b atResponder ik first bound
  obtain ⟨m2,r2,i2,written,length,read,short,⟨ti,readyI⟩,tr,readyR⟩ := continues (reply payload) atResponder second bound'
  intro out
  by_cases holds : payload.length ≤ atResponder
  · have responded : respondWithAnswer snow atResponder b (fun offer => (reply offer,agreed offer)) (frame m1) =
        (frame m2,.ok (tr,snow.publicKey a,agreed payload)) := by
      rw [respondWithAnswer, answered holds]
      simp only [written, readyR, Except.mapError, bind, Except.bind, pure, Except.pure, Except.map]
    have finished : out = ((initiateFinish snow atInitiator i (frame m2)).map
        (fun finished => (finished.1,verdict finished.2)),.ok (tr,agreed payload)) := by
      simp only [out, sent, handshake, Except.map, Waiting.map, responded, verified, checkExpectedPeer]
      simp [Except.bind]
    refine ⟨?_,?_⟩
    · intro fits
      refine ⟨ti,tr,?_⟩
      rw [finished, initiatorFinishes (by omega) (read atInitiator fits.2) readyI]
      rfl
    · intro unfit
      obtain ⟨e,failed⟩ := short atInitiator (by omega)
      refine .inl ⟨noiseIo e,?_⟩
      simp only [finished, initiateFinish, readFrameFrame (show m2.length ≤ maxMessage by omega), failed,
        Except.mapError, bind, Except.bind, Except.map]
  · refine ⟨fun fits => absurd fits.1 holds,?_⟩
    intro unfit
    obtain ⟨e,failed⟩ := refused (Nat.not_le.mp holds) (fun offer => (reply offer,agreed offer))
    refine .inr ⟨e,?_⟩
    simp only [out, sent, handshake, Except.map, Waiting.map, verified, respondWithAnswer, failed, Except.bind]

end Exchange

section Negotiation
variable {State Transport : Type}

/- The two ends run against each other, each pinned to the other's key. -/
def negotiate (snow : Snow State Transport) (a b : Key) (i : Initiator) (r : Responder) :
    Except IoError (Transport × SessionCaps) × Except IoError (Transport × SessionCaps) :=
  handshake (i.start snow a (snow.publicKey b)) (fun recv => r.answer snow b (snow.publicKey a) recv)

theorem initiatorRoom (i : Initiator) : i.payload.length + 96 ≤ i.buffer ∧ i.buffer ≤ maxMessage := by
  cases i with
  | legacy => decide
  | current offer =>
    have short := toPayloadLength offer
    simp only [Initiator.payload, Initiator.buffer, handshakeBuffer, maxMessage]
    omega
  | later offer e =>
    have holds := e.holds
    simp only [Initiator.payload, Initiator.buffer, announceLength]
    omega

theorem responderRoom (r : Responder) (offer : Bytes) :
    (r.reply offer).length + 48 ≤ r.buffer ∧ r.buffer ≤ maxMessage := by
  cases r with
  | legacy => simp [Responder.reply, Responder.buffer, handshakeBuffer, maxMessage]
  | current own =>
    have short := toPayloadLength (agreedByOffer own offer)
    simp only [Responder.reply, Responder.buffer, handshakeBuffer, maxMessage]
    omega
  | later own further e =>
    have holds := e.holds
    simp only [Responder.reply, Responder.buffer, maxMessage] at holds ⊢
    cases SessionCaps.fromPayload offer with
    | none => simp
    | some o =>
      simp only [announceLength]
      omega

theorem negotiateCases {snow : Snow State Transport} (ik : snow.RunsIK) (a b : Key) (i : Initiator) (r : Responder) :
    (Fits i r → ∃ ti tr, negotiate snow a b i r =
      (.ok (ti,i.caps.intersect r.caps),.ok (tr,i.caps.intersect r.caps))) ∧
    (¬Fits i r → (∃ e, (negotiate snow a b i r).1 = .error e) ∨ ∃ e, (negotiate snow a b i r).2 = .error e) := by
  have runs := exchange (a := a) (b := b) ik i.verdict r.agreed (initiatorRoom i).1 (initiatorRoom i).2
    (responderRoom r i.payload).1 (responderRoom r i.payload).2
  simp only [i.verdictReply r, r.agreedPayload i] at runs
  simpa only [negotiate, i.startEq, r.answerEq, Fits] using runs

end Negotiation

/- The handshake with its cipher left out: keys and payloads travel in the clear. -/
inductive Stage where
  | opening (own : Key)
  | waiting
  | listening
  | answering (peer : Key)
  | finished

def clearNoise : Snow Stage Unit where
  publicKey := id
  initiator own _ := .ok (.opening own)
  responder _ := .ok .listening
  writeMessage
    | .opening own, payload, size =>
      if payload.length + 96 ≤ size then .ok (own.toList ++ (List.replicate 64 0 ++ payload),.waiting)
      else .error "input error"
    | .answering _, payload, size =>
      if payload.length + 48 ≤ size then .ok (List.replicate 48 0 ++ payload,.finished) else .error "input error"
    | _, _, _ => .error "state error"
  readMessage
    | .listening, message, buffer =>
      if message.length - 96 ≤ buffer then
        .ok (message.drop 96,.answering (.ofFn fun i => message.getD i.val 0))
      else .error "decrypt error"
    | .waiting, message, buffer =>
      if message.length - 48 ≤ buffer then .ok (message.drop 48,.finished) else .error "decrypt error"
    | _, _, _ => .error "state error"
  getRemoteStatic
    | .answering peer => some peer
    | _ => none
  intoTransportMode
    | .finished => .ok ()
    | _ => .error "state error"

theorem clearNoiseRuns : clearNoise.RunsIK := by
  intro a b
  refine ⟨.opening a,.listening,rfl,rfl,?_⟩
  intro payload size room _
  have length : (a.toList ++ (List.replicate 64 0 ++ payload)).length = payload.length + 96 := by
    rw [List.length_append, List.length_append, List.length_replicate, a.length_toList]
    omega
  have rest : (a.toList ++ (List.replicate 64 0 ++ payload)).drop 96 = payload := by
    rw [← List.append_assoc]
    exact List.drop_left' (by rw [List.length_append, List.length_replicate, a.length_toList])
  refine ⟨a.toList ++ (List.replicate 64 0 ++ payload),.waiting,.answering a,if_pos room,length,?_,?_,rfl,?_⟩
  · intro buffer fits
    have key : Vector.ofFn (fun i : Fin 32 => (a.toList ++ (List.replicate 64 0 ++ payload)).getD i.val 0) = a := by
      ext i inside
      simp [List.getD_eq_getElem?_getD, List.getElem?_append_left]
    refine (if_pos ?_).trans ?_
    · omega
    · rw [rest, key]
  · intro buffer long
    exact ⟨"decrypt error",if_neg (by omega)⟩
  · intro answer size room _
    have behind : (List.replicate 48 (0 : UInt8) ++ answer).drop 48 = answer :=
      List.drop_left' List.length_replicate
    have width : (List.replicate 48 (0 : UInt8) ++ answer).length = answer.length + 48 := by
      rw [List.length_append, List.length_replicate, Nat.add_comm]
    refine ⟨List.replicate 48 0 ++ answer,.finished,.finished,if_pos room,width,?_,?_,⟨(),rfl⟩,(),rfl⟩
    · intro buffer fits
      refine (if_pos ?_).trans ?_
      · omega
      · rw [behind]
    · intro buffer long
      exact ⟨"decrypt error",if_neg (by omega)⟩

/- A later version with a higher version byte and bytes behind the flags. -/
def padded (n : Nat) (holds : n + 102 ≤ maxMessage) : Extension :=
  ⟨2,by decide,List.replicate n 0,by rwa [List.length_replicate]⟩

end CadsTunnel.Delivery
