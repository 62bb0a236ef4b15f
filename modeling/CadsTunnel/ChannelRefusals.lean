import CadsTunnel.ChannelAcks

/-! How the edge refuses a channel member, and what the client's three readers make of it:
where the challenge is due, where the acknowledgement of a rendezvous leg is due, and on
a relay leg. A refusal is `NO`, one byte of length and a category; a length of ten is the
byte that ends a line. -/
namespace CadsTunnel.ChannelJoin
open Words ChannelAck

def channelRefusalSentinel : Bytes := [78,79]

def channelRefusalCategories : List String :=
  ["len-oob","malformed","endpoint","not-member","grant-verify","possession","grant-revoked","grant-status","pairing"]

def channelRefusalCategoryMaxLen : Nat := 24

def tokenByte (b : UInt8) : Bool := (97 : UInt8) ≤ b && b ≤ 122 || (48 : UInt8) ≤ b && b ≤ 57 || b == 45

def tokenShape (maxLen : Nat) (token : Bytes) : Bool := !token.isEmpty && decide (token.length ≤ maxLen) && token.all tokenByte

def isChannelRefusalTokenShape (token : Bytes) : Bool := tokenShape channelRefusalCategoryMaxLen token

def encodeChannelRefusal (category : String) : Bytes :=
  channelRefusalSentinel ++
    if isChannelRefusalTokenShape (asBytes category) then .ofNat (asBytes category).length :: asBytes category else []

def decodeCategory (shape : Bytes → Bool) : Bytes → Option String
  | [] => none
  | len :: tail =>
    if tail.length < len.toNat then none
    else
      let token := tail.take len.toNat
      if shape token then fromUtf8 token else none

def decodeChannelRefusalCategory (rest : Bytes) : Option String := decodeCategory isChannelRefusalTokenShape rest

/- The client's own copies. -/
def refusalCategoryMaxLen : Nat := channelRefusalCategoryMaxLen
def isRefusalTokenShape (token : Bytes) : Bool := tokenShape refusalCategoryMaxLen token
def decodeRefusalCategory (rest : Bytes) : Option String := decodeCategory isRefusalTokenShape rest

/- Text of bytes that need not be UTF-8: each longest beginning of a sequence that cannot go on
becomes one replacement character. -/
structure Sequence where
  value : Nat
  due : Nat
  low : UInt8
  high : UInt8

def replacement : Char := .ofNat 0xFFFD

def Sequence.first (b : UInt8) : List Char × Option Sequence :=
  if b < 0x80 then ([.ofNat b.toNat],none)
  else if 0xC2 ≤ b && b ≤ 0xDF then ([],some ⟨b.toNat - 0xC0,1,0x80,0xBF⟩)
  else if 0xE0 ≤ b && b ≤ 0xEF then
    ([],some ⟨b.toNat - 0xE0,2,if b = 0xE0 then 0xA0 else 0x80,if b = 0xED then 0x9F else 0xBF⟩)
  else if 0xF0 ≤ b && b ≤ 0xF4 then
    ([],some ⟨b.toNat - 0xF0,3,if b = 0xF0 then 0x90 else 0x80,if b = 0xF4 then 0x8F else 0xBF⟩)
  else ([replacement],none)

def Sequence.next (s : Sequence) (b : UInt8) : List Char × Option Sequence :=
  if s.low ≤ b && b ≤ s.high then
    let value := s.value * 64 + (b.toNat - 0x80)
    if s.due ≤ 1 then ([.ofNat value],none) else ([],some ⟨value,s.due - 1,0x80,0xBF⟩)
  else
    let (chars,begun) := first b
    (replacement :: chars,begun)

def lossyChars (begun : Option Sequence) : Bytes → List Char
  | [] => if begun.isSome then [replacement] else []
  | b :: rest =>
    let (chars,begun) := (begun.map (·.next b)).getD (Sequence.first b)
    chars ++ lossyChars begun rest

def fromUtf8Lossy (raw : Bytes) : String := .ofList (lossyChars none raw)

/- The client's side of the exchange. -/

inductive BoxError where
  | text (message : String)
  | droppedLegBeforeAck (leg : String)
  | io (reasons : List String)
  deriving DecidableEq, Repr

/- Where the bytes of a stream run out: its end, an error with its sources, or nothing within the reader's bound. -/
inductive Ending where
  | finished
  | broken (reasons : List String)
  | silent
  deriving DecidableEq, Repr

structure Incoming where
  bytes : Bytes
  ending : Ending
  deriving DecidableEq, Repr

def possessionChallengeLen : Nat := 32
def channelAckMaxBytes : Nat := 512
def phasePreambleMagic : UInt8 := 0xFF
def kaParkInactivityBound : Nat := 35
def parkExpiredReason : String := "park-expired:"

def quicParkExpiredMarker : List Char :=
  if parkExpiredReason.toList.getLast? = some ':' then parkExpiredReason.toList.dropLast else parkExpiredReason.toList

def errorNamesParkExpiry (reasons : List String) : Bool := reasons.any fun text => decide (quicParkExpiredMarker <:+: text.toList)

def stalled : BoxError := .text "channel join admission exchange stalled (#140)"

def kaSilent : BoxError :=
  .text ("KA park went silent — no keepalive tick or ack for " ++ toString kaParkInactivityBound ++
    "s; not a refusal, retry. Cause unknown from here: could be a dead/wedged park on the edge, or a local uplink loss (#506)")

def malformedResponse (length : Nat) : BoxError :=
  .text ("channel join: the edge sent a malformed " ++ toString length ++
    "-byte response before the possession challenge — a broken connection, not a clean OK/NO (#129)")

def unterminated : BoxError :=
  .text ("channel ack exceeded " ++ toString channelAckMaxBytes ++ " bytes without a terminator — malformed peer")

def stripNo (line : Bytes) : Option Bytes := if channelRefusalSentinel <+: line then some (line.drop 2) else none

/- Where the challenge is due: an early outcome, or the challenge and what comes behind it. -/
def preChallenge (recv : Incoming) : Except BoxError (ChannelJoinOutcome ⊕ Bytes × Incoming) :=
  let resp := recv.bytes.take possessionChallengeLen
  if resp.length ≠ possessionChallengeLen then
    if recv.ending = .silent then .error stalled
    else if resp.isEmpty || (stripPrefix "NO" (fromUtf8Lossy resp).toList).isSome then
      .ok (.inl (.refused (if 2 ≤ resp.length then decodeRefusalCategory (resp.drop 2) else none)))
    else .error (malformedResponse resp.length)
  else .ok (.inr (resp,⟨recv.bytes.drop possessionChallengeLen,recv.ending⟩))

/- How the read of a line comes out; on a leg without a bound it can wait for ever. -/
inductive LineRead where
  | line (line rest : Bytes) (endedByNewline : Bool)
  | returns (result : Except BoxError ChannelJoinOutcome)
  | waits

/- NULs in front of the line are the edge's sign of life while the member is parked. -/
def readLine (atEnd : Bytes → LineRead) (line : Bytes) : Bytes → LineRead
  | [] => atEnd line
  | byte :: rest =>
    if byte = 10 then .line line rest true
    else if byte = 0 && line.isEmpty then readLine atEnd line rest
    else if channelAckMaxBytes ≤ (line ++ [byte]).length then .returns (.error unterminated)
    else readLine atEnd (line ++ [byte]) rest

def rendezvousEnd (kaTickWait : Bool) (ending : Ending) (line : Bytes) : LineRead :=
  match ending with
  | .finished => .line line [] false
  | .broken reasons => if errorNamesParkExpiry reasons then .returns (.ok .parkExpired) else .line line [] false
  | .silent => .returns (.error (if kaTickWait then kaSilent else stalled))

def relayEnd (ending : Ending) (line : Bytes) : LineRead :=
  match ending with
  | .finished | .broken _ => .line line [] false
  | .silent => .waits

/- The token behind a `NO` whose length byte was read as the end of the line. -/
def readRefusalTailToken (recv : Incoming) : Option String :=
  let tail := recv.bytes.take (refusalCategoryMaxLen + 1)
  if tail.length < refusalCategoryMaxLen + 1 ∧ recv.ending ≠ .finished then none
  else if tail.length = 10 ∧ isRefusalTokenShape tail then fromUtf8 tail else none

structure Answer where
  result : Except BoxError ChannelJoinOutcome
  unread : Bytes

def answer (leg : String) (ending : Ending) : LineRead → Option Answer
  | .line line rest endedByNewline =>
    if line.isEmpty then some ⟨.error (.droppedLegBeforeAck leg),rest⟩
    else
      match stripNo line with
      | some token =>
        if !token.isEmpty then some ⟨.ok (.refused (decodeRefusalCategory token)),rest⟩
        else if endedByNewline then
          some ⟨.ok (.refused (readRefusalTailToken ⟨rest,ending⟩)),rest.drop (refusalCategoryMaxLen + 1)⟩
        else some ⟨.ok (.refused none),rest⟩
      | none => some ⟨.ok (parseChannelAck (fromUtf8Lossy line)),rest⟩
  | .returns result => some ⟨result,[]⟩
  | .waits => none

/- Where the acknowledgement is due. -/
def readRendezvousAck (kaTickWait : Bool) (recv : Incoming) : Option Answer :=
  answer "rendezvous" recv.ending (readLine (rendezvousEnd kaTickWait recv.ending) [] recv.bytes)

def readRelayAck (recv : Incoming) : Option Answer :=
  answer "relay" recv.ending (readLine (relayEnd recv.ending) [] recv.bytes)

/- The request on the wire, with the phase of a keepalive leg in front. -/
def joinFrame (phaseMarker : Option UInt8) (request : Bytes) : Except BoxError Bytes :=
  if 2 ^ 16 ≤ request.length then .error (.text "channel join request too large")
  else .ok ((phaseMarker.elim [] fun phase => [phasePreambleMagic,phase]) ++ be 2 request.length ++ request)

/- What a join wrote and what became of it. -/
structure Exchange where
  sent : Bytes
  answer : Option Answer

def presentChannelJoinOnStream (sign : Bytes → Signature) (request : Bytes) (phaseMarker : Option UInt8) (kaTickWait : Bool)
    (recv : Incoming) : Exchange :=
  match joinFrame phaseMarker request with
  | .error error => ⟨[],some ⟨.error error,recv.bytes⟩⟩
  | .ok frame =>
    match preChallenge recv with
    | .error error => ⟨frame,some ⟨.error error,[]⟩⟩
    | .ok (.inl early) => ⟨frame,some ⟨.ok early,[]⟩⟩
    | .ok (.inr (challenge,recv)) => ⟨frame ++ (sign challenge).toList,readRendezvousAck kaTickWait recv⟩

def presentChannelRelayJoinOnStream (sign : Bytes → Signature) (request : Bytes) (phaseMarker : Option UInt8) (recv : Incoming) :
    Exchange :=
  match joinFrame phaseMarker request with
  | .error error => ⟨[],some ⟨.error error,recv.bytes⟩⟩
  | .ok frame =>
    if recv.bytes.length < possessionChallengeLen then
      match recv.ending with
      | .finished => ⟨frame,some ⟨.error (.io ["early eof"]),[]⟩⟩
      | .broken reasons => ⟨frame,some ⟨.error (.io reasons),[]⟩⟩
      | .silent => ⟨frame,none⟩
    else
      ⟨frame ++ (sign (recv.bytes.take possessionChallengeLen)).toList,
        readRelayAck ⟨recv.bytes.drop possessionChallengeLen,recv.ending⟩⟩

theorem tokenPrinted {b : UInt8} (token : tokenByte b = true) : b ≠ 10 ∧ b ≠ 0 := by
  constructor
  · rintro rfl
    exact absurd token (by decide)
  · rintro rfl
    exact absurd token (by decide)

/- A category that a reader can know from its bytes. -/
structure Shaped (token : Bytes) : Prop where
  occupied : token ≠ []
  short : token.length ≤ 24
  printed : ∀ b ∈ token, b ≠ 10 ∧ b ≠ 0

theorem shaped {token : Bytes} (shape : isChannelRefusalTokenShape token = true) : Shaped token := by
  simp only [isChannelRefusalTokenShape, tokenShape, Bool.and_eq_true, decide_eq_true_eq, List.all_eq_true] at shape
  exact ⟨by simpa using shape.1.1,shape.1.2,fun b mem => tokenPrinted (shape.2 b mem)⟩

theorem categoriesShaped : ∀ category ∈ channelRefusalCategories, isChannelRefusalTokenShape (asBytes category) = true := by
  decide +kernel

section
variable {category : String} (shape : isChannelRefusalTokenShape (asBytes category) = true)
include shape

theorem refusalFrame : encodeChannelRefusal category = 78 :: 79 :: .ofNat (asBytes category).length :: asBytes category := by
  rw [encodeChannelRefusal, if_pos shape]
  rfl

theorem refusalLength : (encodeChannelRefusal category).length = (asBytes category).length + 3 := by
  rw [refusalFrame shape]
  rfl

theorem lengthByte : (UInt8.ofNat (asBytes category).length).toNat = (asBytes category).length :=
  UInt8.toNat_ofNat_of_lt' (Nat.lt_of_le_of_lt (shaped shape).short (by decide))

/- A decoder reads the category back, whatever comes behind it. -/
theorem decodeRefusal (behind : Bytes) :
    decodeRefusalCategory (.ofNat (asBytes category).length :: asBytes category ++ behind) = some category := by
  have enough : ¬ (asBytes category ++ behind).length < (UInt8.ofNat (asBytes category).length).toNat := by
    rw [lengthByte shape, List.length_append]
    exact Nat.not_lt.mpr (Nat.le_add_right _ _)
  have same : isRefusalTokenShape (asBytes category) = true := shape
  rw [decodeRefusalCategory, List.cons_append, decodeCategory, if_neg enough]
  dsimp only
  rw [lengthByte shape, List.take_left, if_pos same, fromUtf8Bytes]

end

theorem readNuls (atEnd : Bytes → LineRead) (bytes : Bytes) (nuls : Nat) :
    readLine atEnd [] (.replicate nuls 0 ++ bytes) = readLine atEnd [] bytes := by
  induction nuls with
  | zero => rfl
  | succ nuls ih =>
    rw [List.replicate_succ, List.cons_append, readLine]
    exact ih

/- Printed bytes behind the first one go into the line one by one. -/
theorem readText (atEnd : Bytes → LineRead) (rest : Bytes) {text : Bytes} (printed : ∀ b ∈ text, b ≠ 10) {line : Bytes}
    (begun : line ≠ []) (room : line.length + text.length < channelAckMaxBytes) :
    readLine atEnd line (text ++ rest) = readLine atEnd (line ++ text) rest := by
  induction text generalizing line with
  | nil => rw [List.append_nil, List.nil_append]
  | cons b text ih =>
    have other := printed b List.mem_cons_self
    have later : (line ++ [b]).length + text.length < channelAckMaxBytes := by
      simp only [List.length_append, List.length_cons, List.length_nil] at room ⊢
      omega
    rw [List.cons_append, readLine, if_neg other, if_neg (by simp [begun]), if_neg (by omega),
      ih (fun c mem => printed c (List.mem_cons_of_mem _ mem)) (by simp) later, List.append_assoc]
    rfl

/- A refusal of any other length is read to the end of the stream. -/
theorem readRefusal (atEnd : Bytes → LineRead) (nuls : Nat) {category : String}
    (shape : isChannelRefusalTokenShape (asBytes category) = true) :
    readLine atEnd [] (.replicate nuls 0 ++ encodeChannelRefusal category) =
      if (asBytes category).length = 10 then .line [78,79] (asBytes category) true else atEnd (encodeChannelRefusal category) := by
  have ⟨_,short,printed⟩ := shaped shape
  rw [readNuls, refusalFrame shape]
  have opening : readLine atEnd [] (78 :: 79 :: .ofNat (asBytes category).length :: asBytes category) =
      readLine atEnd [78,79] (.ofNat (asBytes category).length :: asBytes category) := rfl
  rw [opening]
  split
  · rename_i ten
    rw [ten]
    rfl
  · rename_i other
    have length : UInt8.ofNat (asBytes category).length ≠ 10 := by
      intro same
      have count := congrArg UInt8.toNat same
      rw [lengthByte shape] at count
      exact other count
    have text := @readText atEnd [] (.ofNat (asBytes category).length :: asBytes category) (fun b mem => ?_) [78,79] (by simp) ?_
    · rw [List.append_nil] at text
      rw [text]
      rfl
    · rcases List.mem_cons.mp mem with rfl | inside
      · exact length
      · exact (printed b inside).1
    · simp only [List.length_cons, List.length_nil, channelAckMaxBytes]
      omega

theorem tailToken {category : String} (shape : isChannelRefusalTokenShape (asBytes category) = true)
    (ten : (asBytes category).length = 10) : readRefusalTailToken ⟨asBytes category,.finished⟩ = some category := by
  have all : (asBytes category).take (refusalCategoryMaxLen + 1) = asBytes category :=
    List.take_of_length_le (by rw [ten]; decide)
  have same : isRefusalTokenShape (asBytes category) = true := shape
  rw [readRefusalTailToken]
  dsimp only
  rw [all, if_neg (by simp), if_pos ⟨ten,same⟩, fromUtf8Bytes]

theorem behindSentinel {category : String} (shape : isChannelRefusalTokenShape (asBytes category) = true) :
    (encodeChannelRefusal category).drop 2 = .ofNat (asBytes category).length :: asBytes category ∧
    decodeRefusalCategory ((encodeChannelRefusal category).drop 2) = some category := by
  have dropped : (encodeChannelRefusal category).drop 2 = .ofNat (asBytes category).length :: asBytes category := by
    rw [refusalFrame shape]
    rfl
  have decoded := decodeRefusal shape []
  rw [List.append_nil] at decoded
  exact ⟨dropped,dropped ▸ decoded⟩

/- Behind the possession of the key both readers know the category, wherever the stream ends. -/
theorem refusalAnswer (leg : String) (nuls : Nat) {category : String} (shape : isChannelRefusalTokenShape (asBytes category) = true)
    {atEnd : Bytes → LineRead} (ends : ∀ line, atEnd line = .line line [] false) :
    (answer leg .finished (readLine atEnd [] (.replicate nuls 0 ++ encodeChannelRefusal category))).map (·.result) =
      some (.ok (.refused (some category))) := by
  rw [readRefusal atEnd nuls shape]
  split
  · rename_i ten
    have stripped : stripNo [78,79] = some [] := rfl
    rw [answer, if_neg (by decide), stripped]
    dsimp only
    rw [if_neg (by decide), if_pos rfl, tailToken shape ten]
    rfl
  · obtain ⟨dropped,decoded⟩ := behindSentinel shape
    have stripped : stripNo (encodeChannelRefusal category) = some ((encodeChannelRefusal category).drop 2) := if_pos ⟨_,rfl⟩
    rw [ends, answer, if_neg (by rw [refusalFrame shape]; simp), stripped]
    dsimp only
    rw [if_pos (by rw [dropped]; rfl), decoded]
    rfl

theorem lossyAscii (b : UInt8) (ascii : b < 0x80) (rest : Bytes) : lossyChars none (b :: rest) = .ofNat b.toNat :: lossyChars none rest := by
  rw [lossyChars]
  simp [Sequence.first, ascii]

/- In place of the challenge, a refusal that the stream ends behind. -/
theorem refusalPreChallenge {category : String} (shape : isChannelRefusalTokenShape (asBytes category) = true) {ending : Ending}
    (ends : ending ≠ .silent) : preChallenge ⟨encodeChannelRefusal category,ending⟩ = .ok (.inl (.refused (some category))) := by
  have short := (shaped shape).short
  have length := refusalLength shape
  have all : (encodeChannelRefusal category).take possessionChallengeLen = encodeChannelRefusal category :=
    List.take_of_length_le (by rw [length, possessionChallengeLen]; omega)
  have begins : (stripPrefix "NO" (fromUtf8Lossy (encodeChannelRefusal category)).toList).isSome = true := by
    rw [refusalFrame shape, fromUtf8Lossy, lossyAscii 78 (by decide), lossyAscii 79 (by decide), String.toList_ofList, stripPrefix]
    simp
  rw [preChallenge]
  dsimp only
  rw [all, if_pos (by rw [length, possessionChallengeLen]; omega), if_neg ends, begins, Bool.or_true, if_pos rfl,
    if_pos (by omega), (behindSentinel shape).2]

/- Each reader has the category from the frame alone; where the acknowledgement is due, behind any number of NULs too. -/
theorem refusalRecovered (category : String) (shape : isChannelRefusalTokenShape (asBytes category) = true) :
    (encodeChannelRefusal category).length < 32 ∧
    decodeChannelRefusalCategory ((encodeChannelRefusal category).drop 2) = some category ∧
    (∀ ending, ending ≠ .silent → preChallenge ⟨encodeChannelRefusal category,ending⟩ = .ok (.inl (.refused (some category)))) ∧
    ∀ nuls kaTickWait,
      (readRendezvousAck kaTickWait ⟨.replicate nuls 0 ++ encodeChannelRefusal category,.finished⟩).map (·.result) =
        some (.ok (.refused (some category))) ∧
      (readRelayAck ⟨.replicate nuls 0 ++ encodeChannelRefusal category,.finished⟩).map (·.result) =
        some (.ok (.refused (some category))) := by
  refine ⟨?_,(behindSentinel shape).2,fun ending ends => refusalPreChallenge shape ends,fun nuls kaTickWait => ⟨?_,?_⟩⟩
  · have short := (shaped shape).short
    rw [refusalLength shape]
    omega
  · exact refusalAnswer "rendezvous" nuls shape fun _ => rfl
  · exact refusalAnswer "relay" nuls shape fun _ => rfl

/- Ten bytes, the length that reads as the end of a line. -/
theorem possessionRecovered : (encodeChannelRefusal "possession").length < 32 ∧
    preChallenge ⟨encodeChannelRefusal "possession",.finished⟩ = .ok (.inl (.refused (some "possession"))) ∧
    (readRendezvousAck true ⟨.replicate 3 0 ++ encodeChannelRefusal "possession",.finished⟩).map (·.result) =
      some (.ok (.refused (some "possession"))) := by
  obtain ⟨short,_,early,late⟩ := refusalRecovered "possession" (categoriesShaped _ (by simp [channelRefusalCategories]))
  exact ⟨short,early .finished (by simp),(late 3 true).1⟩

/- One NUL in front is taken for a broken connection where the challenge is due. -/
theorem nulBeforeChallenge : ¬ ∀ (category : String) (nuls : Nat), isChannelRefusalTokenShape (asBytes category) = true →
    preChallenge ⟨.replicate nuls 0 ++ encodeChannelRefusal category,.finished⟩ = .ok (.inl (.refused (some category))) := by
  intro all
  have same := all "pairing" 1 (categoriesShaped _ (by simp [channelRefusalCategories]))
  have misread : preChallenge ⟨.replicate 1 0 ++ encodeChannelRefusal "pairing",.finished⟩ = .error (malformedResponse 11) := by
    decide +kernel
  rw [misread] at same
  contradiction

end CadsTunnel.ChannelJoin
