import CadsTunnel.ChannelObjects
import CadsTunnel.HexText
import CadsTunnel.Hostnames
import CadsTunnel.SocketText

/-! The line with which the edge admits a channel member, and the client's reading of it.
Bare tokens are read by position and tagged ones by name, so a tag that the client does
not know changes nothing. -/
namespace CadsTunnel.ChannelAck
open Words Hostnames
open Edge (IpAddr SocketAddr SocketText.parse SocketText.toText)

def isLoopbackV4 (o : Vector UInt8 4) : Bool := o[0] == 127
def isUnspecifiedV4 (o : Vector UInt8 4) : Bool := o == #v[0,0,0,0]
def isMulticastV4 (o : Vector UInt8 4) : Bool := (224 : UInt8) ≤ o[0] && o[0] ≤ 239
def isPrivateV4 (o : Vector UInt8 4) : Bool :=
  o[0] == 10 || o[0] == 172 && (16 : UInt8) ≤ o[1] && o[1] ≤ 31 || o[0] == 192 && o[1] == 168
def isLinkLocalV4 (o : Vector UInt8 4) : Bool := o[0] == 169 && o[1] == 254

def isGlobalUnicastV4 (v4 : Vector UInt8 4) : Bool :=
  if isLoopbackV4 v4 || isUnspecifiedV4 v4 || isMulticastV4 v4 then false
  else if isPrivateV4 v4 || isLinkLocalV4 v4 then false
  else if v4[0] == 100 && (64 : UInt8) ≤ v4[1] && v4[1] ≤ 127 then false
  else true

def lastOctets (s : Vector UInt16 8) : Vector UInt8 4 :=
  let octet (v : Nat) : UInt8 := .ofNat v
  #v[octet (s[6].toNat / 256),octet s[6].toNat,octet (s[7].toNat / 256),octet s[7].toNat]

def toIpv4Mapped (s : Vector UInt16 8) : Option (Vector UInt8 4) :=
  if s.toList.take 6 = [0,0,0,0,0,0xffff] then some (lastOctets s) else none

def toIpv4 (s : Vector UInt16 8) : Option (Vector UInt8 4) :=
  if s.toList.take 5 = [0,0,0,0,0] && (s[5] == 0 || s[5] == 0xffff) then some (lastOctets s) else none

def isLoopback : IpAddr → Bool
  | .v4 octets => isLoopbackV4 octets
  | .v6 segments => segments == #v[0,0,0,0,0,0,0,1]

def isUnspecified : IpAddr → Bool
  | .v4 octets => isUnspecifiedV4 octets
  | .v6 segments => segments == #v[0,0,0,0,0,0,0,0]

def isMulticast : IpAddr → Bool
  | .v4 octets => isMulticastV4 octets
  | .v6 segments => segments[0] &&& 0xff00 == 0xff00

def isGlobalUnicast (addr : SocketAddr) : Bool :=
  if isLoopback addr.ip || isUnspecified addr.ip || isMulticast addr.ip then false
  else
    match addr.ip with
    | .v4 v4 => isGlobalUnicastV4 v4
    | .v6 v6 =>
      match (toIpv4Mapped v6).or (toIpv4 v6) with
      | some v4 => isGlobalUnicastV4 v4
      | none =>
        if v6[0] &&& 0xfe00 == 0xfc00 then false
        else if v6[0] &&& 0xffc0 == 0xfe80 then false
        else true

def safeEndpoint (ep : String) : Option SocketAddr := (SocketText.parse ep).filter isGlobalUnicast

def channelEndpointRelayOnly : String := "relay-only"

/- Of the endpoint of a join request. -/
def admissibleEndpoint (endpoint : String) : Bool := endpoint == channelEndpointRelayOnly || (safeEndpoint endpoint).isSome

def hexOf {n : Nat} (v : Vector UInt8 n) : String := Hex.encode v.toList

def memberAckSuffix (noise : Option Key) (holder : Key) (attest : Option Signature) : String :=
  match noise, attest with
  | some n, some a => " " ++ hexOf n ++ " " ++ hexOf holder ++ " " ++ hexOf a
  | _, _ => ""

/- What every completer writes; on a stream it is a line. -/
def memberAck (peerEndpoint : String) (noise : Option Key) (holder : Key) (attest : Option Signature) (own : SocketAddr)
    (sp : Bool) : String :=
  "OK " ++ peerEndpoint ++ memberAckSuffix noise holder attest ++ " r=" ++ SocketText.toText own ++ " sp=" ++ toString sp.toNat

def writeMemberAck (peerEndpoint : String) (noise : Option Key) (holder : Key) (attest : Option Signature) (own : SocketAddr)
    (sp : Bool) : String :=
  memberAck peerEndpoint noise holder attest own sp ++ "\n"

inductive ChannelJoinOutcome where
  | admitted (peerEndpoint : String) (peerNoisePubkey peerHolder : Option Key) (peerAttestation : Option Signature)
      (observedReflexive : Option SocketAddr)
  | parkExpired
  | refused (category : Option String)
  deriving DecidableEq

def parkExpiredToken : Bytes := [69,88]

def stripPrefix (given : String) (s : List Char) : Option (List Char) :=
  if given.toList <+: s then some (s.drop given.toList.length) else none

def splitWhitespace (s : List Char) : List (List Char) := (s.splitOnP whitespace).filter (· ≠ [])

/- The reflexive address and the bare tokens so far. -/
def readToken (read : Option SocketAddr × List String) (tok : List Char) : Option SocketAddr × List String :=
  match stripPrefix "r=" tok with
  | some addr => (SocketText.parse (.ofList addr),read.2)
  | none => if '=' ∈ tok then read else (read.1,read.2 ++ [.ofList tok])

def parseChannelAck (ack : String) : ChannelJoinOutcome :=
  if asBytes (.ofList (trim ack.toList)) = parkExpiredToken then .parkExpired
  else
    match stripPrefix "OK" ack.toList with
    | none => .refused none
    | some rest =>
      let (observedReflexive,fields) := (splitWhitespace rest).foldl readToken (none,[])
      .admitted (fields[0]?.getD "") (fields[1]?.bind Hex.decode32) (fields[2]?.bind Hex.decode32)
        (fields[3]?.bind (Hex.decodeArray 64)) observedReflexive

/- A line of tokens, each after a space. -/
def ackText (tokens : List String) : String := "OK" ++ .join (tokens.map (" " ++ ·))

def keyTokens (noise : Option Key) (holder : Key) (attest : Option Signature) : List String :=
  match noise, attest with
  | some n, some a => [hexOf n,hexOf holder,hexOf a]
  | _, _ => []

/- The tokens behind the endpoint; an edge that does not know the reflexive address leaves it out. -/
def ackTokens (noise : Option Key) (holder : Key) (attest : Option Signature) (own : Option SocketAddr) (sp : Bool) : List String :=
  keyTokens noise holder attest ++ (own.map (fun addr => "r=" ++ SocketText.toText addr)).toList ++ ["sp=" ++ toString sp.toNat]

/- All three of the peer's keys or none. -/
def admittedWith (endpoint : String) (noise : Option Key) (holder : Key) (attest : Option Signature) (own : Option SocketAddr) :
    ChannelJoinOutcome :=
  if noise.isSome && attest.isSome then .admitted endpoint noise (some holder) attest own
  else .admitted endpoint none none none own

theorem memberAckTokens (endpoint : String) (noise : Option Key) (holder : Key) (attest : Option Signature) (own : SocketAddr)
    (sp : Bool) : memberAck endpoint noise holder attest own sp = ackText (endpoint :: ackTokens noise holder attest (some own) sp) := by
  apply String.toList_inj.mp
  cases noise with
  | none => simp [memberAck, memberAckSuffix, ackText, ackTokens, keyTokens, String.join]
  | some n =>
    cases attest with
    | none => simp [memberAck, memberAckSuffix, ackText, ackTokens, keyTokens, String.join]
    | some a => simp [memberAck, memberAckSuffix, ackText, ackTokens, keyTokens, String.join]

/- A tag by a name the client does not know. -/
structure UnknownTag (tok : String) : Prop where
  tagged : '=' ∈ tok.toList
  unknown : stripPrefix "r=" tok.toList = none
  unbroken : ∀ c ∈ tok.toList, whitespace c = false

inductive Inserted : List String → List String → Prop where
  | nil : Inserted [] []
  | kept {a b : List String} (tok : String) (rest : Inserted a b) : Inserted (tok :: a) (tok :: b)
  | added {a b : List String} {tok : String} (tag : UnknownTag tok) (rest : Inserted a b) : Inserted a (tok :: b)

theorem insertedRefl (tokens : List String) : Inserted tokens tokens := by
  induction tokens with
  | nil => exact .nil
  | cons tok rest ih => exact .kept tok ih

theorem splitAppend (a b : List Char) {c : Char} (gap : whitespace c = true) :
    splitWhitespace (a ++ c :: b) = splitWhitespace a ++ splitWhitespace b := by
  rw [splitWhitespace, List.splitOnP_append_cons a b gap, List.filter_append]
  rfl

theorem splitWord {word : List Char} (some' : word ≠ []) (unbroken : ∀ c ∈ word, whitespace c = false) :
    splitWhitespace word = [word] := by
  rw [splitWhitespace, List.splitOnP_eq_singleton unbroken]
  simp [some']

/- A word is what the line is split into. -/
structure Word (tok : String) : Prop where
  occupied : tok ≠ ""
  unbroken : ∀ c ∈ tok.toList, whitespace c = false

theorem splitTokens {tokens : List String} (words : ∀ tok ∈ tokens, Word tok) :
    splitWhitespace (String.join (tokens.map (" " ++ ·))).toList = tokens.map String.toList := by
  induction tokens using List.reverseRecOn with
  | nil => rfl
  | append_singleton tokens tok ih =>
    obtain ⟨some',unbroken⟩ := words tok (by simp)
    have text : (String.join ((tokens ++ [tok]).map (" " ++ ·))).toList = (String.join (tokens.map (" " ++ ·))).toList ++ ' ' :: tok.toList := by
      simp [String.join]
    rw [text, splitAppend _ _ (by decide), ih (fun t mem => words t (by simp [mem])), splitWord (by simpa using some') unbroken]
    simp

/- A token that is read by position. -/
structure Bare (tok : String) : Prop where
  occupied : tok ≠ ""
  untagged : '=' ∉ tok.toList
  unbroken : ∀ c ∈ tok.toList, whitespace c = false

theorem addressVisible {c : Char} (address : Edge.SocketText.addressChar c = true) : c ≠ '=' ∧ whitespace c = false := by
  simp only [Edge.SocketText.addressChar, Bool.or_eq_true, beq_iff_eq] at address
  obtain ((((letter | rfl) | rfl) | rfl) | rfl) | rfl := address
  · have label : labelChar c = true := by simp [labelChar, letter]
    refine ⟨?_,labelCharVisible label⟩
    rintro rfl
    exact absurd letter (by decide)
  all_goals decide

/- The fixed texts of the line, character by character. -/
theorem fixedTexts : (channelEndpointRelayOnly.toList.all labelChar = true ∧ '=' ∉ channelEndpointRelayOnly.toList) ∧
    SocketText.parse "" = none ∧ "r=".toList.all (fun c => !whitespace c) = true ∧
    (∀ sp : Bool, stripPrefix "r=" ("sp=" ++ toString sp.toNat).toList = none ∧
      ("sp=" ++ toString sp.toNat).toList.all (fun c => !whitespace c) = true) ∧
    asBytes "EX" = parkExpiredToken := by
  decide +kernel

theorem bareEndpoint {endpoint : String} (admissible : admissibleEndpoint endpoint) : Bare endpoint := by
  rw [admissibleEndpoint, Bool.or_eq_true, beq_iff_eq] at admissible
  obtain rfl | safe := admissible
  · obtain ⟨label,untagged⟩ := fixedTexts.1
    exact ⟨by decide,untagged,fun c mem => labelCharVisible (List.all_eq_true.mp label c mem)⟩
  · obtain ⟨addr,found⟩ := Option.isSome_iff_exists.mp safe
    obtain ⟨read,_⟩ := Option.filter_eq_some_iff.mp found
    refine ⟨?_,?_,fun c mem => (addressVisible (Edge.SocketText.parsePlain read mem)).2⟩
    · rintro rfl
      rw [fixedTexts.2.1] at read
      contradiction
    · intro mem
      exact (addressVisible (Edge.SocketText.parsePlain read mem)).1 rfl

theorem digitVisible {n : UInt8} (small : n < 16) : Hex.digit n ≠ '=' ∧ whitespace (Hex.digit n) = false := by
  have each : ∀ n < 16, Hex.digit (.ofNat n) ≠ '=' ∧ whitespace (Hex.digit (.ofNat n)) = false := by decide
  simpa using each n.toNat (UInt8.lt_iff_toNat_lt.mp small)

theorem bareHex {n : Nat} (v : Vector UInt8 (n + 1)) : Bare (hexOf v) := by
  have visible : ∀ c ∈ (hexOf v).toList, c ≠ '=' ∧ whitespace c = false := by
    intro c mem
    simp only [hexOf, Hex.encode, String.toList_ofList, List.mem_flatMap, List.mem_cons, List.not_mem_nil, or_false] at mem
    obtain ⟨b,_,rfl | rfl⟩ := mem
    · exact digitVisible (Hex.highSmall b)
    · exact digitVisible (Hex.lowSmall b)
  refine ⟨?_,fun mem => (visible _ mem).1 rfl,fun c mem => (visible c mem).2⟩
  intro empty
  have none' : (hexOf v).toList = [] := by rw [empty]; rfl
  rw [hexOf, Hex.encode, String.toList_ofList, List.flatMap_eq_nil_iff] at none'
  exact absurd (none' v[0] (by simp)) (by simp)

theorem bareKeys (noise : Option Key) (holder : Key) (attest : Option Signature) : ∀ tok ∈ keyTokens noise holder attest, Bare tok := by
  intro tok mem
  unfold keyTokens at mem
  split at mem
  · simp only [List.mem_cons, List.not_mem_nil, or_false] at mem
    obtain rfl | rfl | rfl := mem
    · exact bareHex _
    · exact bareHex _
    · exact bareHex _
  · exact absurd mem List.not_mem_nil

theorem hexDecoded {n : Nat} (v : Vector UInt8 n) : Hex.decodeArray n (hexOf v) = some v := by
  have length : (asBytes (hexOf v)).length = 2 * n := by
    rw [hexOf, Hex.encodeBytes, List.length_flatMap]
    simp [Nat.mul_comm]
  rw [Hex.decodeArray, if_neg (not_not.mpr length), hexOf, Hex.decodeEncode]
  simp [Option.bind, Vector.toList]

theorem readUnknown {tok : String} (tag : UnknownTag tok) (read : Option SocketAddr × List String) :
    readToken read tok.toList = read := by
  rw [readToken, tag.unknown]
  simp only [if_pos tag.tagged]

theorem readBare {tok : String} (bare : Bare tok) (read : Option SocketAddr × List String) :
    readToken read tok.toList = (read.1,read.2 ++ [tok]) := by
  have other : stripPrefix "r=" tok.toList = none := by
    rw [stripPrefix, if_neg]
    intro front
    exact bare.untagged (front.subset (by decide))
  rw [readToken, other]
  simp [bare.untagged]

theorem readBares {tokens : List String} (bare : ∀ tok ∈ tokens, Bare tok) (read : Option SocketAddr × List String) :
    (tokens.map String.toList).foldl readToken read = (read.1,read.2 ++ tokens) := by
  induction tokens generalizing read with
  | nil => simp
  | cons tok rest ih =>
    rw [List.map_cons, List.foldl_cons, readBare (bare tok List.mem_cons_self), ih (fun t mem => bare t (List.mem_cons_of_mem _ mem))]
    simp

theorem readReflexive {addr : SocketAddr} (roundTrip : SocketText.parse (SocketText.toText addr) = some addr)
    (read : Option SocketAddr × List String) : readToken read ("r=" ++ SocketText.toText addr).toList = (some addr,read.2) := by
  have tag : stripPrefix "r=" ("r=" ++ SocketText.toText addr).toList = some (SocketText.toText addr).toList := by
    rw [stripPrefix, String.toList_append, if_pos (List.prefix_append _ _), List.drop_left]
  rw [readToken, tag]
  simp only [String.ofList_toList, roundTrip]

theorem readInserted {a b : List String} (inserted : Inserted a b) (read : Option SocketAddr × List String) :
    (b.map String.toList).foldl readToken read = (a.map String.toList).foldl readToken read := by
  induction inserted generalizing read with
  | nil => rfl
  | kept tok rest ih => exact ih _
  | added tag rest ih =>
    rw [List.map_cons, List.foldl_cons, readUnknown tag]
    exact ih read

theorem bareWord {tok : String} (bare : Bare tok) : Word tok := ⟨bare.occupied,bare.unbroken⟩

theorem tagWord {tok : String} (tag : UnknownTag tok) : Word tok := by
  refine ⟨?_,tag.unbroken⟩
  rintro rfl
  exact absurd tag.tagged (by decide)

theorem insertedWords {a b : List String} (inserted : Inserted a b) (words : ∀ tok ∈ a, Word tok) : ∀ tok ∈ b, Word tok := by
  induction inserted with
  | nil => exact words
  | kept tok rest ih =>
    obtain ⟨first,others⟩ := List.forall_mem_cons.mp words
    exact List.forall_mem_cons.mpr ⟨first,ih others⟩
  | added tag rest ih => exact List.forall_mem_cons.mpr ⟨tagWord tag,ih words⟩

theorem reflexiveWord {addr : SocketAddr} (roundTrip : SocketText.parse (SocketText.toText addr) = some addr) :
    Word ("r=" ++ SocketText.toText addr) := by
  refine ⟨by simp,?_⟩
  intro c mem
  rw [String.toList_append, List.mem_append] at mem
  obtain tag | address := mem
  · simpa using List.all_eq_true.mp fixedTexts.2.2.1 c tag
  · exact (addressVisible (Edge.SocketText.parsePlain roundTrip address)).2

theorem sameIpTag (sp : Bool) : UnknownTag ("sp=" ++ toString sp.toNat) := by
  obtain ⟨unknown,visible⟩ := fixedTexts.2.2.2.1 sp
  exact ⟨by simp,unknown,fun c mem => by simpa using List.all_eq_true.mp visible c mem⟩

section Lines
variable {endpoint : String} {noise : Option Key} {holder : Key} {attest : Option Signature} {own : Option SocketAddr} {sp : Bool}

theorem ackWords (roundTrip : ∀ addr, own = some addr → SocketText.parse (SocketText.toText addr) = some addr) :
    ∀ tok ∈ ackTokens noise holder attest own sp, Word tok := by
  intro tok mem
  simp only [ackTokens, List.mem_append, List.mem_singleton] at mem
  obtain (key | reflexive) | rfl := mem
  · exact bareWord (bareKeys noise holder attest tok key)
  · cases own with
    | none => simp at reflexive
    | some addr =>
      obtain rfl : tok = "r=" ++ SocketText.toText addr := by simpa using reflexive
      exact reflexiveWord (roundTrip addr rfl)
  · exact tagWord (sameIpTag sp)

/- What the tokens of an ack are read as. -/
theorem readAck (bare : Bare endpoint) (roundTrip : ∀ addr, own = some addr → SocketText.parse (SocketText.toText addr) = some addr) :
    ((endpoint :: ackTokens noise holder attest own sp).map String.toList).foldl readToken (none,[]) =
      (own,endpoint :: keyTokens noise holder attest) := by
  have front : ∀ tok ∈ endpoint :: keyTokens noise holder attest, Bare tok :=
    List.forall_mem_cons.mpr ⟨bare,bareKeys noise holder attest⟩
  rw [ackTokens, ← List.cons_append, ← List.cons_append, List.map_append, List.map_append, List.foldl_append, List.foldl_append,
    readBares front]
  cases own with
  | none => exact readUnknown (sameIpTag sp) _
  | some addr =>
    simp only [Option.map_some, Option.toList_some, List.map_cons, List.map_nil, List.foldl_cons, List.foldl_nil,
      readReflexive (roundTrip addr rfl)]
    exact readUnknown (sameIpTag sp) _

theorem notExpired (tokens : List String) (ending : String) :
    asBytes (.ofList (trim (ackText tokens ++ ending).toList)) ≠ parkExpiredToken := by
  intro same
  have text := asBytesInjective (same.trans fixedTexts.2.2.2.2.symm)
  have chars : trim (ackText tokens ++ ending).toList = ['E','X'] := by
    rw [← String.toList_ofList (l := trim _), text]
    rfl
  have front : trim (ackText tokens ++ ending).toList <+: (ackText tokens ++ ending).toList := by
    have first : (ackText tokens ++ ending).toList = 'O' :: ((ackText tokens ++ ending).toList).tail := by
      simp [ackText]
    rw [trim, first, List.dropWhile_cons_of_neg (by decide)]
    exact List.rdropWhile_prefix _ _
  rw [chars] at front
  simp [ackText] at front

/- Every line of tokens is split into them. -/
theorem parseTokens {tokens : List String} {ending : String} (words : ∀ tok ∈ tokens, Word tok)
    (ended : ending = "" ∨ ending = "\n") {read : Option SocketAddr} {fields : List String}
    (reads : (tokens.map String.toList).foldl readToken (none,[]) = (read,fields)) :
    parseChannelAck (ackText tokens ++ ending) =
      .admitted (fields[0]?.getD "") (fields[1]?.bind Hex.decode32) (fields[2]?.bind Hex.decode32)
        (fields[3]?.bind (Hex.decodeArray 64)) read := by
  have split : splitWhitespace ((String.join (tokens.map (" " ++ ·))).toList ++ ending.toList) = tokens.map String.toList := by
    have whole := splitTokens words
    obtain rfl | rfl := ended
    · simpa using whole
    · exact (splitAppend _ [] (by decide)).trans (by rw [whole]; simp [splitWhitespace])
  have rest : stripPrefix "OK" (ackText tokens ++ ending).toList =
      some ((String.join (tokens.map (" " ++ ·))).toList ++ ending.toList) := by
    rw [stripPrefix, ackText, String.toList_append, String.toList_append, List.append_assoc, if_pos (List.prefix_append _ _),
      List.drop_left]
  rw [parseChannelAck, if_neg (notExpired tokens ending), rest]
  simp only [split, reads]

theorem keysRead (endpoint : String) (noise : Option Key) (holder : Key) (attest : Option Signature) (own : Option SocketAddr) :
    let fields := endpoint :: keyTokens noise holder attest
    ChannelJoinOutcome.admitted (fields[0]?.getD "") (fields[1]?.bind Hex.decode32) (fields[2]?.bind Hex.decode32)
      (fields[3]?.bind (Hex.decodeArray 64)) own = admittedWith endpoint noise holder attest own := by
  cases noise with
  | none => rfl
  | some n =>
    cases attest with
    | none => rfl
    | some a => simp [keyTokens, admittedWith, Hex.decode32, hexDecoded]

end Lines

/- The client reads back the endpoint, the keys and the address that the edge has written, also from a line without the
address, from one with further tags behind the endpoint, and without the end of the line. -/
theorem ackAgreement (endpoint : String) (noise : Option Key) (holder : Key) (attest : Option Signature) (own : Option SocketAddr)
    (sp : Bool) (admissible : admissibleEndpoint endpoint)
    (roundTrip : ∀ addr, own = some addr → SocketText.parse (SocketText.toText addr) = some addr) :
    (∀ addr, own = some addr → parseChannelAck (writeMemberAck endpoint noise holder attest addr sp) =
      admittedWith endpoint noise holder attest (some addr)) ∧
    ∀ tokens ending, Inserted (ackTokens noise holder attest own sp) tokens → ending = "" ∨ ending = "\n" →
      parseChannelAck (ackText (endpoint :: tokens) ++ ending) = admittedWith endpoint noise holder attest own := by
  have bare : Bare endpoint := bareEndpoint admissible
  have inserts : ∀ tokens ending, Inserted (ackTokens noise holder attest own sp) tokens → ending = "" ∨ ending = "\n" →
      parseChannelAck (ackText (endpoint :: tokens) ++ ending) = admittedWith endpoint noise holder attest own := by
    intro tokens ending inserted ended
    have words : ∀ tok ∈ endpoint :: tokens, Word tok :=
      List.forall_mem_cons.mpr ⟨bareWord bare,insertedWords inserted (ackWords roundTrip)⟩
    have reads : ((endpoint :: tokens).map String.toList).foldl readToken (none,[]) =
        (own,endpoint :: keyTokens noise holder attest) :=
      (readInserted (.kept endpoint inserted) _).trans (readAck bare roundTrip)
    rw [parseTokens words ended reads]
    exact keysRead endpoint noise holder attest own
  refine ⟨?_,inserts⟩
  rintro addr rfl
  rw [writeMemberAck, memberAckTokens]
  exact inserts _ "\n" (insertedRefl _) (.inr rfl)

/- An ack with a tag of a later version between the endpoint and the keys. -/
theorem ackAgreementSample :
    let own : SocketAddr := ⟨.v4 #v[203,0,113,7],4433,0⟩
    let line := writeMemberAck "203.0.113.5:9999" (some (.replicate 32 1)) (.replicate 32 2) (some (.replicate 64 3)) own true
    let tokens := "v=9" :: ackTokens (some (.replicate 32 1)) (.replicate 32 2) (some (.replicate 64 3)) (some own) true
    let read := ChannelJoinOutcome.admitted "203.0.113.5:9999" (some (.replicate 32 1)) (some (.replicate 32 2))
      (some (.replicate 64 3)) (some own)
    parseChannelAck line = read ∧ parseChannelAck (ackText ("203.0.113.5:9999" :: tokens) ++ "") = read := by
  have roundTrip : ∀ addr, some (⟨.v4 #v[203,0,113,7],4433,0⟩ : SocketAddr) = some addr →
      SocketText.parse (SocketText.toText addr) = some addr := by
    rintro addr ⟨⟩
    decide +kernel
  have agreement := ackAgreement "203.0.113.5:9999" (some (.replicate 32 1)) (.replicate 32 2) (some (.replicate 64 3)) _ true
    (by decide +kernel) roundTrip
  have tag : UnknownTag "v=9" := ⟨by decide +kernel,by decide +kernel,by simp [whitespace]⟩
  exact ⟨agreement.1 _ rfl,agreement.2 _ "" (.added tag (insertedRefl _)) (.inl rfl)⟩

end CadsTunnel.ChannelAck
