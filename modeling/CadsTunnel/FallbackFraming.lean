import CadsTunnel.Words
import CadsTunnel.Machine

/-! The frame layer of the TLS-TCP fallback's relay phase: one writer and one reader
for each direction, each keeping the FIN rules on its own side. The writer's sink
takes every byte; what a failing connection lets through is a byte prefix of it. The
reader's source is a byte string with the end of the stream behind it. -/
namespace CadsTunnel.Fallback
open Words

def frameData : UInt8 := 0xFC
def frameKeepalive : UInt8 := 0xFD
def frameKeepaliveAck : UInt8 := 0xF8
def frameFin : UInt8 := 0xFE

def maxFramePayload : Nat := 256 * 1024

inductive Frame where
  | data (payload : Bytes)
  | keepalive (counter : UInt64) (shouldAck : Bool)
  | keepaliveAck (counter : UInt64)
  | fin
  deriving DecidableEq, Repr

inductive ErrorKind where
  | invalidInput
  | invalidData
  | unexpectedEof
  deriving DecidableEq, Repr

structure IoError where
  kind : ErrorKind
  message : String
  deriving DecidableEq, Repr

def invalidInput (message : String) : IoError := ⟨.invalidInput,message⟩
def invalidData (message : String) : IoError := ⟨.invalidData,message⟩

/- `{:02X}` of a byte. -/
def upperHex (b : UInt8) : String := String.ofList [digit (b.toNat / 16),digit (b.toNat % 16)]
where
  digit (n : Nat) : Char := if n < 10 then .ofNat (48 + n) else .ofNat (55 + n)

structure FrameWriter where
  w : Bytes
  sentFin : Bool

namespace FrameWriter

def new (w : Bytes) : FrameWriter := ⟨w,false⟩

def writeAll (s : FrameWriter) (buf : Bytes) : FrameWriter := { s with w := s.w ++ buf }

def data (s : FrameWriter) (payload : Bytes) : Except IoError Unit × FrameWriter :=
  if s.sentFin then (.error (invalidInput "fallback-framing: DATA after own FIN"),s)
  else if payload.length > maxFramePayload then
    (.error (invalidInput
      s!"fallback-framing: DATA payload {payload.length} exceeds MAX_FRAME_PAYLOAD {maxFramePayload}"),s)
  else (.ok (),s.writeAll (frameData :: (be 4 payload.length ++ payload)))

def keepalive (s : FrameWriter) (counter : UInt64) : Except IoError Unit × FrameWriter :=
  (.ok (),s.writeAll (frameKeepalive :: u64BE counter))

def keepaliveAck (s : FrameWriter) (counter : UInt64) : Except IoError Unit × FrameWriter :=
  (.ok (),s.writeAll (frameKeepaliveAck :: u64BE counter))

def fin (s : FrameWriter) : Except IoError Unit × FrameWriter :=
  if s.sentFin then (.error (invalidInput "fallback-framing: double FIN"),s)
  else (.ok (),{ s with sentFin := true }.writeAll [frameFin])

def flush (s : FrameWriter) : Except IoError Unit × FrameWriter := (.ok (),s)

def shutdown (s : FrameWriter) : Except IoError Unit × FrameWriter := (.ok (),s)

end FrameWriter

structure FrameReader where
  r : Bytes
  peerFin : Bool
  lastAcked : Option UInt64

namespace FrameReader

def new (r : Bytes) : FrameReader := ⟨r,false,none⟩

/- `read_exact`: at the end of the stream what was there is consumed all the same. -/
def readExact (s : FrameReader) (n : Nat) : Except IoError Bytes × FrameReader :=
  if n ≤ s.r.length then (.ok (s.r.take n),{ s with r := s.r.drop n })
  else (.error ⟨.unexpectedEof,"early eof"⟩,{ s with r := [] })

def nextFin (s : FrameReader) : Except IoError (Option Frame) × FrameReader :=
  if s.peerFin then (.error (invalidData "fallback-framing: double FIN from peer"),s)
  else (.ok (some .fin),{ s with peerFin := true })

def nextKeepalive (s : FrameReader) : Except IoError (Option Frame) × FrameReader :=
  match s.readExact 8 with
  | (.error e,s) => (.error e,s)
  | (.ok c,s) =>
    let counter : UInt64 := .ofNat (readBE c)
    match s.lastAcked with
    | some last =>
      if counter ≤ last then (.ok (some (.keepalive counter false)),s)
      else (.ok (some (.keepalive counter true)),{ s with lastAcked := some counter })
    | none => (.ok (some (.keepalive counter true)),{ s with lastAcked := some counter })

def nextKeepaliveAck (s : FrameReader) : Except IoError (Option Frame) × FrameReader :=
  match s.readExact 8 with
  | (.error e,s) => (.error e,s)
  | (.ok c,s) => (.ok (some (.keepaliveAck (.ofNat (readBE c)))),s)

def nextData (s : FrameReader) : Except IoError (Option Frame) × FrameReader :=
  if s.peerFin then (.error (invalidData "fallback-framing: DATA after peer FIN"),s)
  else
    match s.readExact 4 with
    | (.error e,s) => (.error e,s)
    | (.ok lenBuf,s) =>
      let len := readBE lenBuf
      if len > maxFramePayload then
        (.error (invalidData
          s!"fallback-framing: DATA length {len} exceeds MAX_FRAME_PAYLOAD {maxFramePayload}"),s)
      else
        match s.readExact len with
        | (.error e,s) => (.error e,s)
        | (.ok payload,s) => (.ok (some (.data payload)),s)

def next (s : FrameReader) : Except IoError (Option Frame) × FrameReader :=
  match s.r with
  | [] => (.ok none,s)
  | disc :: rest =>
    let s := { s with r := rest }
    if disc = frameFin then s.nextFin
    else if disc = frameKeepalive then s.nextKeepalive
    else if disc = frameKeepaliveAck then s.nextKeepaliveAck
    else if disc = frameData then s.nextData
    else (.error (invalidData s!"fallback-framing: unexpected/reserved frame discriminator 0x{upperHex disc}"),s)

/- The answers of the next `n` calls. -/
def results : Nat → FrameReader → List (Except IoError (Option Frame))
  | 0, _ => []
  | n + 1, s => s.next.1 :: results n s.next.2

def answered : Except IoError (Option Frame) → List Frame
  | .ok (some frame) => [frame]
  | _ => []

def yielded (n : Nat) (s : FrameReader) : List Frame := (s.results n).flatMap answered

/- The frames up to the end of the stream or the first error. Every frame takes a byte at least. -/
def framesWithin : Nat → FrameReader → List Frame
  | 0, _ => []
  | n + 1, s =>
    match s.next with
    | (.ok (some frame),s) => frame :: s.framesWithin n
    | _ => []

def frames (s : FrameReader) : List Frame := s.framesWithin s.r.length

end FrameReader

def Frame.payload : Frame → Bytes
  | .data payload => payload
  | _ => []

/- The keepalives sent and not yet acknowledged, oldest first, with the time of each in milliseconds. -/
structure KeepaliveTracker where
  outstanding : List (UInt64 × Nat)
  deriving DecidableEq, Repr

namespace KeepaliveTracker

def new : KeepaliveTracker := ⟨[]⟩

def outstandingCap : Nat := 64

def sent (s : KeepaliveTracker) (counter : UInt64) (nowMs : Nat) : KeepaliveTracker :=
  let kept := if s.outstanding.length ≥ outstandingCap then s.outstanding.tail else s.outstanding
  ⟨kept ++ [(counter,nowMs)]⟩

def ack (s : KeepaliveTracker) (counter : UInt64) : KeepaliveTracker := ⟨s.outstanding.filter (fun e => e.1 > counter)⟩

def oldestOutstandingAgeMs (s : KeepaliveTracker) (nowMs : Nat) : Option Nat := s.outstanding.head?.map (fun e => nowMs - e.2)

/- In the order of their times, none of them later than now. -/
structure Ordered (s : KeepaliveTracker) (nowMs : Nat) : Prop where
  ascending : s.outstanding.Pairwise (fun earlier later => earlier.2 ≤ later.2)
  past : ∀ e ∈ s.outstanding, e.2 ≤ nowMs

variable {s : KeepaliveTracker} {nowMs : Nat}

theorem newOrdered : new.Ordered nowMs := ⟨.nil,by simp [new]⟩

theorem orderedLater (ordered : s.Ordered nowMs) {later : Nat} (after : nowMs ≤ later) : s.Ordered later :=
  ⟨ordered.ascending,fun e mem => (ordered.past e mem).trans after⟩

theorem ackOrdered (ordered : s.Ordered nowMs) (counter : UInt64) : (s.ack counter).Ordered nowMs :=
  ⟨ordered.ascending.filter _,fun e mem => ordered.past e (List.mem_of_mem_filter mem)⟩

theorem sentOrdered (ordered : s.Ordered nowMs) (counter : UInt64) : (s.sent counter nowMs).Ordered nowMs := by
  have kept : (if s.outstanding.length ≥ outstandingCap then s.outstanding.tail else s.outstanding).Sublist s.outstanding := by
    split
    · exact List.tail_sublist _
    · exact .refl _
  refine ⟨List.pairwise_append.mpr ⟨ordered.ascending.sublist kept,List.pairwise_singleton _ _,?_⟩,?_⟩
  · intro e mem last same
    rw [List.mem_singleton.mp same]
    exact ordered.past e (kept.subset mem)
  · intro e mem
    obtain old | new := List.mem_append.mp mem
    · exact ordered.past e (kept.subset old)
    · rw [List.mem_singleton.mp new]

/- Who passes the bound is the oldest of all. -/
theorem oldestAged (ordered : s.Ordered nowMs) {bound : Nat}
    (aged : (s.oldestOutstandingAgeMs nowMs).any (fun age => bound ≤ age) = true) (positive : 0 < bound) :
    ∃ oldest ∈ s.outstanding, (∀ e ∈ s.outstanding, oldest.2 ≤ e.2) ∧ oldest.2 + bound ≤ nowMs := by
  obtain ⟨outstanding⟩ := s
  cases outstanding with
  | nil => simp [oldestOutstandingAgeMs] at aged
  | cons oldest rest =>
    have age : bound ≤ nowMs - oldest.2 := by simpa [oldestOutstandingAgeMs] using aged
    refine ⟨oldest,List.mem_cons_self,?_,by omega⟩
    intro e mem
    obtain rfl | later := List.mem_cons.mp mem
    · exact le_rfl
    · exact List.rel_of_pairwise_cons ordered.ascending later

end KeepaliveTracker

/- What the calls on a writer put on the wire, frame by frame. -/
inductive Sent where
  | data (payload : Bytes)
  | keepalive (counter : UInt64)
  | keepaliveAck (counter : UInt64)
  | fin
  deriving DecidableEq, Repr

def Sent.encode : Sent → Bytes
  | .data payload => frameData :: (be 4 payload.length ++ payload)
  | .keepalive counter => frameKeepalive :: u64BE counter
  | .keepaliveAck counter => frameKeepaliveAck :: u64BE counter
  | .fin => [frameFin]

def Sent.payload : Sent → Bytes
  | .data payload => payload
  | _ => []

/- The frames a reader is to yield: a keepalive is to be acknowledged when its counter
passes every counter seen before. -/
def received : List UInt64 → List Sent → List Frame
  | _, [] => []
  | seen, .data payload :: rest => .data payload :: received seen rest
  | seen, .keepalive counter :: rest =>
    .keepalive counter (seen.all (· < counter)) :: received (counter :: seen) rest
  | seen, .keepaliveAck counter :: rest => .keepaliveAck counter :: received seen rest
  | seen, .fin :: rest => .fin :: received seen rest

/- The frames that lie whole within the first `n` bytes. -/
def whole : Nat → List Sent → List Sent
  | _, [] => []
  | n, frame :: rest => if frame.encode.length ≤ n then frame :: whole (n - frame.encode.length) rest else []

inductive Op where
  | data (payload : Bytes)
  | keepalive (counter : UInt64)
  | keepaliveAck (counter : UInt64)
  | fin
  | flush
  | shutdown
  deriving DecidableEq, Repr

def Op.sent : Op → List Sent
  | .data payload => [.data payload]
  | .keepalive counter => [.keepalive counter]
  | .keepaliveAck counter => [.keepaliveAck counter]
  | .fin => [.fin]
  | .flush => []
  | .shutdown => []

namespace FrameWriter

def call (s : FrameWriter) : Op → Except IoError Unit × FrameWriter
  | .data payload => s.data payload
  | .keepalive counter => s.keepalive counter
  | .keepaliveAck counter => s.keepaliveAck counter
  | .fin => s.fin
  | .flush => s.flush
  | .shutdown => s.shutdown

def run (ops : List Op) : FrameWriter := Machine.run call (new []) ops

def accepts (s : FrameWriter) (op : Op) : List Sent := if (s.call op).1.isOk then op.sent else []

/- The frames of the calls that the writer accepted. -/
def accepted (ops : List Op) : List Sent := Machine.log call accepts (new []) ops

end FrameWriter

/- Frames that may follow on a direction whose FIN has passed or not. -/
def Follows : Bool → List Sent → Prop
  | _, [] => True
  | finished, .data payload :: rest => finished = false ∧ payload.length ≤ maxFramePayload ∧ Follows finished rest
  | finished, .fin :: rest => finished = false ∧ Follows true rest
  | finished, .keepalive _ :: rest => Follows finished rest
  | finished, .keepaliveAck _ :: rest => Follows finished rest

/- After a FIN there is neither DATA nor another FIN. -/
theorem followsFinished {sent : List Sent} (follows : Follows true sent) : ∀ frame ∈ sent, frame ≠ .fin ∧ ∀ payload, frame ≠ .data payload := by
  induction sent with
  | nil => simp
  | cons frame sent ih =>
    cases frame with
    | data payload => exact absurd follows.1 (by decide)
    | fin => exact absurd follows.1 (by decide)
    | keepalive counter => simpa using ih follows
    | keepaliveAck counter => simpa using ih follows

theorem followsPairwise {finished : Bool} {sent : List Sent} (follows : Follows finished sent) :
    sent.Pairwise (fun earlier later => earlier = .fin → later ≠ .fin ∧ ∀ payload, later ≠ .data payload) := by
  induction sent generalizing finished with
  | nil => exact .nil
  | cons frame sent ih =>
    cases frame with
    | data payload => exact .cons (fun _ _ fin => nomatch fin) (ih follows.2.2)
    | fin => exact .cons (fun later mem _ => followsFinished follows.2 later mem) (ih follows.2)
    | keepalive counter => exact .cons (fun _ _ fin => nomatch fin) (ih follows)
    | keepaliveAck counter => exact .cons (fun _ _ fin => nomatch fin) (ih follows)

theorem followsCount {finished : Bool} {sent : List Sent} (follows : Follows finished sent) : sent.count .fin ≤ 1 := by
  induction sent generalizing finished with
  | nil => simp
  | cons frame sent ih =>
    cases frame with
    | data payload => simpa using ih follows.2.2
    | fin =>
      have rest : sent.count .fin = 0 := List.count_eq_zero.mpr (fun mem => (followsFinished follows.2 .fin mem).1 rfl)
      simp [rest]
    | keepalive counter => simpa using @ih finished follows
    | keepaliveAck counter => simpa using @ih finished follows

namespace FrameWriter

/- A rejected call writes nothing and changes nothing. -/
theorem callCases (s : FrameWriter) (op : Op) :
    ((s.call op).1.isOk = false ∧ (s.call op).2 = s) ∨
    ((s.call op).1.isOk = true ∧ (s.call op).2.w = s.w ++ op.sent.flatMap Sent.encode ∧
      ∀ rest, Follows (s.call op).2.sentFin rest → Follows s.sentFin (op.sent ++ rest)) := by
  cases op with
  | data payload =>
    by_cases finished : s.sentFin
    · exact .inl ⟨by simp [call, data, finished, Except.isOk, Except.toBool],by simp [call, data, finished]⟩
    · by_cases large : payload.length > maxFramePayload
      · exact .inl ⟨by simp [call, data, finished, large, Except.isOk, Except.toBool],
          by simp [call, data, finished, large]⟩
      · have done : s.call (.data payload) = (.ok (),s.writeAll (frameData :: (be 4 payload.length ++ payload))) := by
          simp [call, data, finished, large]
        rw [done]
        refine .inr ⟨rfl,by simp [writeAll, Op.sent, Sent.encode],?_⟩
        intro rest follows
        exact ⟨by simpa using finished,Nat.not_lt.mp large,follows⟩
  | fin =>
    by_cases finished : s.sentFin
    · exact .inl ⟨by simp [call, fin, finished, Except.isOk, Except.toBool],by simp [call, fin, finished]⟩
    · have done : s.call .fin = (.ok (),{ s with sentFin := true }.writeAll [frameFin]) := by
        simp [call, fin, finished]
      rw [done]
      refine .inr ⟨rfl,by simp [writeAll, Op.sent, Sent.encode],?_⟩
      intro rest follows
      exact ⟨by simpa using finished,follows⟩
  | keepalive counter => exact .inr ⟨rfl,by simp [call, keepalive, writeAll, Op.sent, Sent.encode],fun _ follows => follows⟩
  | keepaliveAck counter =>
    exact .inr ⟨rfl,by simp [call, keepaliveAck, writeAll, Op.sent, Sent.encode],fun _ follows => follows⟩
  | flush => exact .inr ⟨rfl,by simp [call, flush, Op.sent],fun _ follows => follows⟩
  | shutdown => exact .inr ⟨rfl,by simp [call, shutdown, Op.sent],fun _ follows => follows⟩

/- Only a FIN closes the direction. -/
theorem callFin (s : FrameWriter) (op : Op) (finished : (s.call op).2.sentFin = true) : s.sentFin = true ∨ .fin ∈ op.sent := by
  cases op with
  | data payload =>
    simp only [call, data] at finished
    split at finished
    · exact .inl finished
    · split at finished
      · exact .inl finished
      · exact .inl finished
  | fin => exact .inr (by simp [Op.sent])
  | keepalive counter => exact .inl finished
  | keepaliveAck counter => exact .inl finished
  | flush => exact .inl finished
  | shutdown => exact .inl finished

theorem written (s : FrameWriter) (ops : List Op) :
    (Machine.run call s ops).w = s.w ++ (Machine.log call accepts s ops).flatMap Sent.encode ∧
      Follows s.sentFin (Machine.log call accepts s ops) := by
  induction ops generalizing s with
  | nil => simp [Machine.run, Machine.log, Follows]
  | cons op ops ih =>
    obtain ⟨bytes,follows⟩ := ih (s.call op).2
    have step : Machine.run call s (op :: ops) = Machine.run call (s.call op).2 ops := rfl
    rw [step, bytes, Machine.log, accepts]
    rcases callCases s op with ⟨rejected,same⟩ | ⟨taken,appended,keeps⟩
    · rw [same] at follows ⊢
      rw [rejected, if_neg Bool.false_ne_true, List.nil_append]
      exact ⟨rfl,follows⟩
    · rw [if_pos taken, appended, List.append_assoc, List.flatMap_append]
      exact ⟨rfl,keeps _ follows⟩

end FrameWriter

/- The last acknowledged counter stands for all the counters seen. -/
def Tracks (lastAcked : Option UInt64) (seen : List UInt64) : Prop :=
  ∀ counter, (∃ last, lastAcked = some last ∧ counter ≤ last) ↔ ∃ c ∈ seen, counter ≤ c

theorem tracksBounded {lastAcked : Option UInt64} {seen : List UInt64} (tracks : Tracks lastAcked seen)
    (counter : UInt64) : seen.all (· < counter) = true ↔ ∀ last, lastAcked = some last → last < counter := by
  have bounded := not_congr (tracks counter)
  simp only [not_exists, not_and, UInt64.not_le] at bounded
  simp only [List.all_eq_true, decide_eq_true_eq, bounded]

namespace FrameReader

theorem readExactFront (s : FrameReader) {front rest : Bytes} (bytes : s.r = front ++ rest) :
    s.readExact front.length = (.ok front,{ s with r := rest }) := by
  simp [readExact, bytes]

theorem readExactShort (s : FrameReader) {n : Nat} (short : s.r.length < n) :
    s.readExact n = (.error ⟨.unexpectedEof,"early eof"⟩,{ s with r := [] }) := by
  rw [readExact, if_neg (Nat.not_le.mpr short)]

theorem readU64 (s : FrameReader) (counter : UInt64) {rest : Bytes} (bytes : s.r = u64BE counter ++ rest) :
    s.readExact 8 = (.ok (u64BE counter),{ s with r := rest }) := by
  have length : (u64BE counter).length = 8 := beLength 8 _
  rw [← length]
  exact readExactFront s bytes

theorem nextEnd {s : FrameReader} (empty : s.r = []) : s.next = (.ok none,s) := by
  simp [next, empty]

theorem resultsEnd {s : FrameReader} (empty : s.r = []) (n : Nat) : s.results n = List.replicate n (.ok none) := by
  induction n with
  | zero => rfl
  | succ n ih => rw [results, nextEnd empty, ih, List.replicate_succ]

/- Where the reader stands between two frames: what follows on the wire keeps the FIN
rules, and its acknowledgement mark stands for the counters seen. -/
structure Between (s : FrameReader) (seen : List UInt64) (later : List Sent) : Prop where
  follows : Follows s.peerFin later
  tracks : Tracks s.lastAcked seen

theorem nextKeepaliveRead {s : FrameReader} {seen : List UInt64} (counter : UInt64) {rest : Bytes}
    (bytes : s.r = u64BE counter ++ rest) (tracks : Tracks s.lastAcked seen) :
    ∃ lastAcked, s.nextKeepalive =
        (.ok (some (.keepalive counter (seen.all (· < counter)))),{ s with r := rest, lastAcked := lastAcked }) ∧
      Tracks lastAcked (counter :: seen) := by
  simp only [nextKeepalive, readU64 s counter bytes, readU64BE]
  cases known : s.lastAcked with
  | none =>
    have first : seen.all (· < counter) = true := (tracksBounded tracks counter).mpr (by simp [known])
    rw [first]
    refine ⟨some counter,rfl,?_⟩
    intro other
    have none : ¬∃ c ∈ seen, other ≤ c := by simpa [known] using tracks other
    simp only [Option.some.injEq, exists_eq_left', List.mem_cons, exists_eq_or_imp, none, or_false]
  | some last =>
    by_cases old : counter ≤ last
    · have repeated : seen.all (· < counter) = false := by
        refine Bool.eq_false_iff.mpr ?_
        intro all
        exact absurd ((tracksBounded tracks counter).mp all last known) (UInt64.not_lt.mpr old)
      simp only [old, if_true, repeated]
      refine ⟨some last,by rw [← known],?_⟩
      intro other
      rw [← known, tracks other]
      simp only [List.mem_cons, exists_eq_or_imp]
      refine ⟨.inr,?_⟩
      intro either
      rcases either with below | known
      · exact (tracks other).mp ⟨last,known,UInt64.le_trans below old⟩
      · exact known
    · have fresh : seen.all (· < counter) = true := by
        refine (tracksBounded tracks counter).mpr ?_
        intro other same
        cases Option.some.inj (known.symm.trans same)
        exact UInt64.not_le.mp old
      simp only [old, if_false, fresh]
      refine ⟨some counter,rfl,?_⟩
      intro other
      simp only [Option.some.injEq, exists_eq_left', List.mem_cons, exists_eq_or_imp, ← tracks other, known]
      refine ⟨.inl,?_⟩
      intro either
      rcases either with below | below
      · exact below
      · exact UInt64.le_trans below (UInt64.le_of_lt (UInt64.not_le.mp old))

theorem nextDataRead {s : FrameReader} {payload rest : Bytes} (bytes : s.r = be 4 payload.length ++ (payload ++ rest))
    (pending : s.peerFin = false) (small : payload.length ≤ maxFramePayload) :
    s.nextData = (.ok (some (.data payload)),{ s with r := rest }) := by
  have header : s.readExact 4 = (.ok (be 4 payload.length),{ s with r := payload ++ rest }) := by
    have length : (be 4 payload.length).length = 4 := beLength 4 _
    have front := readExactFront s bytes
    rwa [length] at front
  have bound : payload.length < 256 ^ 4 := Nat.lt_of_le_of_lt small (by decide)
  have body : ({ s with r := payload ++ rest } : FrameReader).readExact payload.length =
      (.ok payload,{ s with r := rest }) := readExactFront _ rfl
  rw [nextData, if_neg (by simp [pending]), header]
  simp only [readBeBounded bound, if_neg (Nat.not_lt.mpr small), body]

/- A frame whose bytes are all there is yielded. -/
theorem nextWhole {s : FrameReader} {seen : List UInt64} {frame : Sent} {later : List Sent} {rest : Bytes}
    (bytes : s.r = frame.encode ++ rest) (between : s.Between seen (frame :: later)) :
    ∃ f s' seen', s.next = (.ok (some f),s') ∧ s'.r = rest ∧ s'.Between seen' later ∧
      ∀ tail, received seen (frame :: tail) = f :: received seen' tail := by
  obtain ⟨follows,tracks⟩ := between
  cases frame with
  | data payload =>
    obtain ⟨pending,small,follows⟩ := follows
    have tail : s.r = frameData :: (be 4 payload.length ++ (payload ++ rest)) := by simpa [Sent.encode] using bytes
    refine ⟨.data payload,{ s with r := rest },seen,?_,rfl,⟨follows,tracks⟩,fun _ => rfl⟩
    simp only [next, tail]
    exact nextDataRead (s := { s with r := _ }) rfl pending small
  | keepalive counter =>
    have tail : s.r = frameKeepalive :: (u64BE counter ++ rest) := by simpa [Sent.encode] using bytes
    obtain ⟨lastAcked,read,marked⟩ :=
      nextKeepaliveRead (s := { s with r := u64BE counter ++ rest }) counter rfl tracks
    refine ⟨.keepalive counter (seen.all (· < counter)),{ s with r := rest, lastAcked := lastAcked },counter :: seen,
      ?_,rfl,⟨follows,marked⟩,fun _ => rfl⟩
    simp only [next, tail]
    exact read
  | keepaliveAck counter =>
    have tail : s.r = frameKeepaliveAck :: (u64BE counter ++ rest) := by simpa [Sent.encode] using bytes
    refine ⟨.keepaliveAck counter,{ s with r := rest },seen,?_,rfl,⟨follows,tracks⟩,fun _ => rfl⟩
    simp only [next, tail, nextKeepaliveAck]
    simp [frameKeepaliveAck, frameFin, frameKeepalive, readU64 { s with r := u64BE counter ++ rest } counter rfl, readU64BE]
  | fin =>
    obtain ⟨pending,follows⟩ := follows
    have tail : s.r = frameFin :: rest := by simpa [Sent.encode] using bytes
    refine ⟨.fin,{ s with r := rest, peerFin := true },seen,?_,rfl,⟨follows,tracks⟩,fun _ => rfl⟩
    simp [next, tail, nextFin, pending]

theorem resultsWhole {s : FrameReader} {seen : List UInt64} {frames later : List Sent} {rest : Bytes}
    (bytes : s.r = frames.flatMap Sent.encode ++ rest) (between : s.Between seen (frames ++ later)) :
    ∃ (s' : FrameReader) (seen' : List UInt64), s'.r = rest ∧ s'.Between seen' later ∧
      ∀ n, s.results (frames.length + n) = (received seen frames).map (fun f => .ok (some f)) ++ s'.results n := by
  induction frames generalizing s seen with
  | nil => exact ⟨s,seen,bytes,between,fun n => by simp [received]⟩
  | cons frame frames ih =>
    rw [List.flatMap_cons, List.append_assoc] at bytes
    obtain ⟨f,s1,seen1,step,bytes,between,yields⟩ := nextWhole bytes between
    obtain ⟨s',seen',left,between,all⟩ := ih bytes between
    refine ⟨s',seen',left,between,?_⟩
    intro n
    rw [yields, List.length_cons, Nat.add_right_comm, results, step, all]
    rfl

/- A frame cut short after its first byte. -/
theorem nextTorn {s : FrameReader} {seen : List UInt64} {frame : Sent} {later : List Sent} {n : Nat}
    (bytes : s.r = frame.encode.take (n + 1)) (torn : n + 1 < frame.encode.length)
    (between : s.Between seen (frame :: later)) :
    s.next.1 = .error ⟨.unexpectedEof,"early eof"⟩ := by
  obtain ⟨follows,_⟩ := between
  cases frame with
  | data payload =>
    obtain ⟨pending,small,_⟩ := follows
    have tail : s.r = frameData :: (be 4 payload.length ++ payload).take n := by simpa [Sent.encode] using bytes
    have short : n < 4 + payload.length := by
      simp only [Sent.encode, List.length_cons, List.length_append, beLength] at torn
      omega
    have begins : s.next = { s with r := (be 4 payload.length ++ payload).take n }.nextData := by
      simp only [next, tail]
      rfl
    rw [begins, nextData, if_neg (by simp [pending])]
    by_cases header : n < 4
    · rw [readExactShort _ (n := 4) (by simp [header])]
    · have split : (be 4 payload.length ++ payload).take n = be 4 payload.length ++ payload.take (n - 4) := by
        rw [List.take_append, beLength, List.take_of_length_le (by rw [beLength]; omega)]
      have read := readExactFront { s with r := be 4 payload.length ++ payload.take (n - 4) } rfl
      have bound : payload.length < 256 ^ 4 := Nat.lt_of_le_of_lt small (by decide)
      rw [beLength] at read
      rw [split, read]
      simp only [readBeBounded bound, if_neg (Nat.not_lt.mpr small)]
      rw [readExactShort _ (n := payload.length) (by simp; omega)]
  | keepalive counter =>
    have tail : s.r = frameKeepalive :: (u64BE counter).take n := by simpa [Sent.encode] using bytes
    have short : n < 8 := by
      simp only [Sent.encode, u64BE, List.length_cons, beLength] at torn
      omega
    have begins : s.next = { s with r := (u64BE counter).take n }.nextKeepalive := by
      simp only [next, tail]
      rfl
    rw [begins, nextKeepalive, readExactShort _ (n := 8) (by simp [short])]
  | keepaliveAck counter =>
    have tail : s.r = frameKeepaliveAck :: (u64BE counter).take n := by simpa [Sent.encode] using bytes
    have short : n < 8 := by
      simp only [Sent.encode, u64BE, List.length_cons, beLength] at torn
      omega
    have begins : s.next = { s with r := (u64BE counter).take n }.nextKeepaliveAck := by
      simp only [next, tail]
      rfl
    rw [begins, nextKeepaliveAck, readExactShort _ (n := 8) (by simp [short])]
  | fin => simp [Sent.encode] at torn

/- What one call can do on arbitrary bytes: the peer's FIN is never forgotten, and DATA and
FIN are yielded only before it. -/
structure Safe (s : FrameReader) (answer : Except IoError (Option Frame) × FrameReader) : Prop where
  kept : s.peerFin = true → answer.2.peerFin = true
  data : ∀ payload, answer.1 = .ok (some (.data payload)) → s.peerFin = false ∧ payload.length ≤ maxFramePayload
  fin : answer.1 = .ok (some .fin) → s.peerFin = false ∧ answer.2.peerFin = true

theorem readExactCases (s : FrameReader) (n : Nat) :
    (∃ raw rest, raw.length = n ∧ s.readExact n = (.ok raw,{ s with r := rest })) ∨
      s.readExact n = (.error ⟨.unexpectedEof,"early eof"⟩,{ s with r := [] }) := by
  by_cases enough : n ≤ s.r.length
  · exact .inl ⟨s.r.take n,s.r.drop n,by simp [enough],by rw [readExact, if_pos enough]⟩
  · exact .inr (by rw [readExact, if_neg enough])

theorem nextKeepaliveSafe (s : FrameReader) : s.Safe s.nextKeepalive := by
  rcases readExactCases s 8 with ⟨raw,rest,_,read⟩ | short
  · simp only [nextKeepalive, read]
    cases s.lastAcked with
    | none => exact ⟨id,by simp,by simp⟩
    | some last =>
      simp only
      split
      · exact ⟨id,by simp,by simp⟩
      · exact ⟨id,by simp,by simp⟩
  · simp only [nextKeepalive, short]
    exact ⟨id,by simp,by simp⟩

theorem nextKeepaliveAckSafe (s : FrameReader) : s.Safe s.nextKeepaliveAck := by
  rcases readExactCases s 8 with ⟨raw,rest,_,read⟩ | short
  · simp only [nextKeepaliveAck, read]
    exact ⟨id,by simp,by simp⟩
  · simp only [nextKeepaliveAck, short]
    exact ⟨id,by simp,by simp⟩

theorem nextDataSafe (s : FrameReader) : s.Safe s.nextData := by
  rw [nextData]
  split
  · exact ⟨id,by simp,by simp⟩
  · rename_i pending
    rcases readExactCases s 4 with ⟨header,rest,_,read⟩ | short
    · simp only [read]
      split
      · exact ⟨id,by simp,by simp⟩
      · rename_i small
        rcases readExactCases { s with r := rest } (readBE header) with ⟨raw,left,length,body⟩ | short
        · rw [body]
          refine ⟨id,?_,by simp⟩
          intro payload same
          cases same
          exact ⟨by simpa using pending,length ▸ Nat.not_lt.mp small⟩
        · rw [short]
          exact ⟨id,by simp,by simp⟩
    · simp only [short]
      exact ⟨id,by simp,by simp⟩

theorem nextFinSafe (s : FrameReader) : s.Safe s.nextFin := by
  rw [nextFin]
  split
  · exact ⟨id,by simp,by simp⟩
  · rename_i pending
    exact ⟨fun _ => rfl,by simp,fun _ => ⟨by simpa using pending,rfl⟩⟩

theorem nextSafe (s : FrameReader) : s.Safe s.next := by
  unfold next
  split
  · exact ⟨id,by simp,by simp⟩
  · rename_i disc rest bytes
    have same : ∀ {answer}, Safe { s with r := rest } answer → s.Safe answer :=
      fun safe => ⟨safe.kept,safe.data,safe.fin⟩
    simp only
    split
    · exact same (nextFinSafe _)
    · split
      · exact same (nextKeepaliveSafe _)
      · split
        · exact same (nextKeepaliveAckSafe _)
        · split
          · exact same (nextDataSafe _)
          · exact ⟨id,by simp,by simp⟩

/- Neither DATA nor another FIN. -/
def Quiet (frame : Frame) : Prop := frame ≠ .fin ∧ ∀ payload, frame ≠ .data payload

theorem answeredMem {answer : Except IoError (Option Frame)} {frame : Frame} :
    frame ∈ answered answer ↔ answer = .ok (some frame) := by
  rcases answer with e | ⟨_ | other⟩
  · simp [answered]
  · simp [answered]
  · simp [answered, eq_comm]

theorem yieldedNext (n : Nat) (s : FrameReader) : s.yielded (n + 1) = answered s.next.1 ++ s.next.2.yielded n :=
  List.flatMap_cons

theorem yieldedMem {n : Nat} {s : FrameReader} {frame : Frame} (mem : frame ∈ s.yielded (n + 1)) :
    s.next.1 = .ok (some frame) ∨ frame ∈ s.next.2.yielded n := by
  rw [yieldedNext] at mem
  rcases List.mem_append.mp mem with now | later
  · exact .inl (answeredMem.mp now)
  · exact .inr later

theorem yieldedQuiet {s : FrameReader} (finished : s.peerFin = true) (n : Nat) : ∀ frame ∈ s.yielded n, Quiet frame := by
  induction n generalizing s with
  | zero => simp [yielded, results]
  | succ n ih =>
    intro frame mem
    have safe := nextSafe s
    rcases yieldedMem mem with now | later
    · refine ⟨?_,?_⟩
      · intro fin
        exact absurd (safe.fin (fin ▸ now)).1 (by simp [finished])
      · intro payload data
        exact absurd (safe.data payload (data ▸ now)).1 (by simp [finished])
    · exact ih (safe.kept finished) frame later

theorem yieldedOrder (n : Nat) (s : FrameReader) :
    (s.yielded n).Pairwise (fun earlier later => earlier = .fin → Quiet later) := by
  induction n generalizing s with
  | zero => simp [yielded, results]
  | succ n ih =>
    rw [yieldedNext]
    refine List.pairwise_append.mpr ⟨?_,ih _,?_⟩
    · rcases s.next.1 with e | ⟨_ | frame⟩
      · exact .nil
      · exact .nil
      · exact List.pairwise_singleton _ _
    · intro earlier now later mem fin
      have first : s.next.1 = .ok (some .fin) := fin ▸ answeredMem.mp now
      exact yieldedQuiet ((nextSafe s).fin first).2 n later mem

theorem yieldedSmall (n : Nat) (s : FrameReader) (payload : Bytes) (mem : .data payload ∈ s.yielded n) :
    payload.length ≤ maxFramePayload := by
  induction n generalizing s with
  | zero => simp [yielded, results] at mem
  | succ n ih =>
    rcases yieldedMem mem with now | later
    · exact ((nextSafe s).data payload now).2
    · exact ih _ later

end FrameReader

namespace FrameReader
variable {s s' : FrameReader} {frame : Frame}

theorem readExactShrinks (s : FrameReader) (n : Nat) : (s.readExact n).2.r.length ≤ s.r.length := by
  rw [readExact]
  split
  · simp
  · simp

theorem nextKeepaliveShrinks (s : FrameReader) : s.nextKeepalive.2.r.length ≤ s.r.length := by
  have shrinks := readExactShrinks s 8
  unfold nextKeepalive
  split
  case h_1 e m read => rwa [read] at shrinks
  case h_2 c m read =>
    rw [read] at shrinks
    dsimp only
    split
    · split <;> exact shrinks
    · exact shrinks

theorem nextKeepaliveAckShrinks (s : FrameReader) : s.nextKeepaliveAck.2.r.length ≤ s.r.length := by
  have shrinks := readExactShrinks s 8
  unfold nextKeepaliveAck
  split
  case h_1 e m read => rwa [read] at shrinks
  case h_2 c m read => rwa [read] at shrinks

theorem nextDataShrinks (s : FrameReader) : s.nextData.2.r.length ≤ s.r.length := by
  have shrinks := readExactShrinks s 4
  unfold nextData
  split
  · exact le_rfl
  · split
    case h_1 e m read => rwa [read] at shrinks
    case h_2 lenBuf m read =>
      rw [read] at shrinks
      dsimp only
      split
      · exact shrinks
      · have body := readExactShrinks m (readBE lenBuf)
        split
        case h_1 e last read => exact (read ▸ body).trans shrinks
        case h_2 payload last read => exact (read ▸ body).trans shrinks

theorem nextFinShrinks (s : FrameReader) : s.nextFin.2.r.length ≤ s.r.length := by
  unfold nextFin
  split <;> exact le_rfl

theorem nextShrinks (yields : s.next = (.ok (some frame),s')) : s'.r.length < s.r.length := by
  have last : s' = s.next.2 := by rw [yields]
  rw [last]
  unfold next at yields ⊢
  split
  case h_1 empty => simp [empty] at yields
  case h_2 disc rest bytes =>
    rw [bytes, List.length_cons, Nat.lt_succ_iff]
    dsimp only
    split
    · exact nextFinShrinks _
    · split
      · exact nextKeepaliveShrinks _
      · split
        · exact nextKeepaliveAckShrinks _
        · split
          · exact nextDataShrinks _
          · exact le_rfl

/- Only the end of the stream is no frame and no error. -/
theorem nextNone (ended : s.next = (.ok none,s')) : s' = s := by
  unfold next at ended
  split at ended
  case h_1 => exact (Prod.mk.inj ended).2.symm
  case h_2 disc rest bytes =>
    have nextFin : ∀ m : FrameReader, m.nextFin.1 ≠ .ok none := by
      intro m
      unfold FrameReader.nextFin
      split <;> nofun
    have nextKeepalive : ∀ m : FrameReader, m.nextKeepalive.1 ≠ .ok none := by
      intro m
      unfold FrameReader.nextKeepalive
      split
      · nofun
      · dsimp only
        split
        · split <;> nofun
        · nofun
    have nextKeepaliveAck : ∀ m : FrameReader, m.nextKeepaliveAck.1 ≠ .ok none := by
      intro m
      unfold FrameReader.nextKeepaliveAck
      split <;> nofun
    have nextData : ∀ m : FrameReader, m.nextData.1 ≠ .ok none := by
      intro m
      unfold FrameReader.nextData
      split
      · nofun
      · split
        · nofun
        · dsimp only
          split
          · nofun
          · split <;> nofun
    dsimp only at ended
    split at ended
    · exact absurd (by rw [ended]) (nextFin _)
    · split at ended
      · exact absurd (by rw [ended]) (nextKeepalive _)
      · split at ended
        · exact absurd (by rw [ended]) (nextKeepaliveAck _)
        · split at ended
          · exact absurd (by rw [ended]) (nextData _)
          · exact absurd (Prod.mk.inj ended).1 nofun

theorem framesEnough {n : Nat} (enough : s.r.length ≤ n) : s.framesWithin n = s.frames := by
  have stable : ∀ m k (s : FrameReader), s.r.length ≤ m → s.r.length ≤ k → s.framesWithin m = s.framesWithin k := by
    intro m
    induction m with
    | zero =>
      intro k s small _
      have ended : s.next = (.ok none,s) := nextEnd (List.length_eq_zero_iff.mp (Nat.le_zero.mp small))
      cases k with
      | zero => rfl
      | succ k => rw [framesWithin, framesWithin, ended]
    | succ m ih =>
      intro k s small large
      cases k with
      | zero =>
        have ended : s.next = (.ok none,s) := nextEnd (List.length_eq_zero_iff.mp (Nat.le_zero.mp large))
        rw [framesWithin, framesWithin, ended]
      | succ k =>
        rw [framesWithin, framesWithin]
        split
        case h_1 frame s' yields =>
          have shrinks := nextShrinks yields
          rw [ih k s' (by omega) (by omega)]
        case h_2 => rfl
  exact stable n _ s enough le_rfl

theorem framesNext (yields : s.next = (.ok (some frame),s')) : s.frames = frame :: s'.frames := by
  have shrinks := nextShrinks yields
  rw [← framesEnough (Nat.le_succ _), framesWithin, yields]
  exact congrArg _ (framesEnough shrinks.le)

theorem framesEnd (ends : ∀ frame, s.next.1 ≠ .ok (some frame)) : s.frames = [] := by
  rw [← framesEnough (Nat.le_succ _), framesWithin]
  split
  case h_1 frame s' yields => exact absurd (by rw [yields]) (ends frame)
  case h_2 => rfl

/- After the peer's FIN no payload is left to read. -/
theorem framesFinished (finished : s.peerFin = true) : s.frames.flatMap Frame.payload = [] := by
  have within : ∀ n (s : FrameReader), s.peerFin = true → (s.framesWithin n).flatMap Frame.payload = [] := by
    intro n
    induction n with
    | zero => intros; rfl
    | succ n ih =>
      intro s finished
      rw [framesWithin]
      have safe := nextSafe s
      split
      case h_1 frame s' yields =>
        rw [yields] at safe
        rw [List.flatMap_cons, ih s' (safe.kept finished), List.append_nil]
        cases frame with
        | data payload => exact absurd (safe.data payload rfl).1 (by simp [finished])
        | keepalive => rfl
        | keepaliveAck => rfl
        | fin => rfl
      case h_2 => rfl
  exact within _ s finished

theorem receivedPayload (seen : List UInt64) (sent : List Sent) :
    (received seen sent).flatMap Frame.payload = sent.flatMap Sent.payload := by
  induction sent generalizing seen with
  | nil => rfl
  | cons frame sent ih =>
    cases frame <;> simp [received, Frame.payload, Sent.payload, ih]

/- What another writer has put on the wire. -/
theorem framesWhole {seen : List UInt64} {sent : List Sent} (bytes : s.r = sent.flatMap Sent.encode) (between : s.Between seen sent) :
    s.frames = received seen sent := by
  induction sent generalizing s seen with
  | nil => exact framesEnd (by simp [nextEnd bytes])
  | cons frame sent ih =>
    rw [List.flatMap_cons] at bytes
    obtain ⟨f,s',seen',yields,rest,between,same⟩ := nextWhole bytes between
    have first := same sent
    rw [framesNext yields, ih rest between, first]

end FrameReader

/- The payloads a reader finds are those that the writer took. -/
theorem payloadsRead (ops : List Op) :
    (FrameReader.new (FrameWriter.run ops).w).frames.flatMap Frame.payload = (FrameWriter.accepted ops).flatMap Sent.payload := by
  obtain ⟨written,follows⟩ := FrameWriter.written (.new []) ops
  have start : Tracks (FrameReader.new (FrameWriter.run ops).w).lastAcked [] := fun counter => by simp [FrameReader.new]
  have all : (FrameReader.new (FrameWriter.run ops).w).frames = received [] (FrameWriter.accepted ops) :=
    FrameReader.framesWhole written ⟨follows,start⟩
  rw [all, FrameReader.receivedPayload]

theorem wholeSplit (n : Nat) (sent : List Sent) :
    ∃ later torn, sent = whole n sent ++ later ∧
      (sent.flatMap Sent.encode).take n = (whole n sent).flatMap Sent.encode ++ torn ∧
      (torn = [] ∨ ∃ frame rest m, later = frame :: rest ∧ torn = frame.encode.take (m + 1) ∧
        m + 1 < frame.encode.length) := by
  induction sent generalizing n with
  | nil => exact ⟨[],[],rfl,by simp [whole],.inl rfl⟩
  | cons frame sent ih =>
    rw [whole]
    split
    · rename_i fits
      obtain ⟨later,torn,split,bytes,rest⟩ := ih (n - frame.encode.length)
      refine ⟨later,torn,by rw [List.cons_append, ← split],?_,rest⟩
      rw [List.flatMap_cons, List.take_append, List.take_of_length_le fits, bytes, List.flatMap_cons, List.append_assoc]
    · rename_i cut
      refine ⟨frame :: sent,frame.encode.take n,rfl,?_,?_⟩
      · rw [List.flatMap_cons, List.take_append_of_le_length (by omega)]
        rfl
      · cases n with
        | zero => exact .inl rfl
        | succ m => exact .inr ⟨frame,sent,m,rfl,rfl,Nat.not_le.mp cut⟩

open FrameReader in
theorem framesInStep (ops : List Op) :
    let bytes := (FrameWriter.run ops).w
    let sent := FrameWriter.accepted ops
    (∀ more, (FrameReader.new bytes).results (sent.length + more) =
      (received [] sent).map (fun f => .ok (some f)) ++ List.replicate more (.ok none)) ∧
    (∀ n, let frames := whole n sent
      (FrameReader.new (bytes.take n)).results (frames.length + 1) =
        (received [] frames).map (fun f => .ok (some f)) ++
          [if (frames.flatMap Sent.encode).length = (bytes.take n).length then .ok none
            else .error ⟨.unexpectedEof,"early eof"⟩]) ∧
    ∀ raw calls, let frames := (FrameReader.new raw).yielded calls
      frames.Pairwise (fun earlier later => earlier = .fin → later ≠ .fin ∧ ∀ payload, later ≠ .data payload) ∧
      ∀ payload, .data payload ∈ frames → payload.length ≤ maxFramePayload := by
  intro bytes sent
  obtain ⟨written,follows⟩ := FrameWriter.written (.new []) ops
  have wire : bytes = sent.flatMap Sent.encode := written
  have start : ∀ raw, Tracks (FrameReader.new raw).lastAcked [] := fun raw counter => by simp [FrameReader.new]
  refine ⟨?_,?_,?_⟩
  · intro more
    have whole : (FrameReader.new bytes).r = sent.flatMap Sent.encode ++ [] := by rw [List.append_nil]; exact wire
    have between : (FrameReader.new bytes).Between [] (sent ++ []) := ⟨(List.append_nil sent).symm ▸ follows,start bytes⟩
    obtain ⟨s,_,ended,_,all⟩ := resultsWhole whole between
    rw [all, resultsEnd ended]
  · intro n frames
    obtain ⟨later,torn,split,cut,rest⟩ := wholeSplit n sent
    rw [← wire] at cut
    obtain ⟨s,_,left,between,all⟩ := resultsWhole (s := .new (bytes.take n)) cut
      ⟨by rw [← split]; exact follows,start _⟩
    rw [all, cut, List.length_append]
    rcases rest with rfl | ⟨frame,after,m,rfl,rfl,short⟩
    · rw [if_pos (by simp [frames]), resultsEnd left]
      rfl
    · have cutLength : (frame.encode.take (m + 1)).length = m + 1 := by simp; omega
      rw [if_neg (by simp only [frames, cutLength]; omega), results, nextTorn left short between]
      rfl
  · intro raw calls frames
    exact ⟨yieldedOrder calls _,yieldedSmall calls _⟩

/- A refused FIN leaves no trace; five bytes into the DATA frame the reader reports the torn frame. -/
example : (FrameReader.new ((FrameWriter.run [.keepalive 7,.data [1,2],.fin,.fin,.data [3]]).w.take 14)).results 2 =
    [.ok (some (.keepalive 7 true)),.error ⟨.unexpectedEof,"early eof"⟩] := by decide

end CadsTunnel.Fallback
