import CadsTunnel.CanonicalJson
import CadsTunnel.HexText
import CadsTunnel.Slices
import CadsTunnel.Machine
import CadsTunnel.ChannelObjects

/-! Signed receipts: each carries the hash of its content and of its predecessor, and
a signature of the hash. The verifier checks numbering, linkage, edge identity, hash
and signature of every receipt of a list. -/
namespace CadsTunnel.Receipts
open Words Machine

abbrev Seed := Vector UInt8 32

/- Ed25519 with the parsing of keys and the signing side. -/
structure SigningCrypto extends Crypto where
  isKey : Key → Bool
  verifyingKey : Seed → Key
  sign : Seed → Bytes → Signature

def genesisPrevHash : String := "0000000000000000000000000000000000000000000000000000000000000000"
def kindSessionOpen : String := "session_open"
def kindSessionClose : String := "session_close"

structure Receipt where
  seq : UInt64
  prevHash : String
  ts : Int64
  edgeId : String
  kind : String
  routingTokenHash : String
  payload : Json.Value
  hash : String
  sig : String

inductive VerifyError where
  | badPubkey
  | malformed (seq : UInt64) (field : String)
  | hashMismatch (seq : UInt64)
  | badSignature (seq : UInt64)
  | brokenLink (seq : UInt64)
  | seqGap (seq expected : UInt64)
  | edgeIdMismatch (seq : UInt64)
  deriving DecidableEq, Repr

structure VerifiedSummary where
  count : Nat := 0
  edgeId : Option String := none
  firstSeq : Option UInt64 := none
  lastSeq : Option UInt64 := none
  firstTs : Option Int64 := none
  lastTs : Option Int64 := none
  firstPrevHash : Option String := none
  lastHash : Option String := none
  fromGenesis : Bool := false
  sessionsOpened : UInt64 := 0
  sessionsClosed : UInt64 := 0
  bytesIn : UInt64 := 0
  bytesOut : UInt64 := 0
  deriving DecidableEq

def payloadU64 (payload : Json.Value) (key : String) : UInt64 :=
  match payload with
  | .object members =>
    match members.find? (fun m => m.1 = key) with
    | some (_,.number (.posInt n)) => n
    | _ => 0
  | _ => 0

def tally (summary : VerifiedSummary) (r : Receipt) : VerifiedSummary :=
  if r.kind = kindSessionOpen then { summary with sessionsOpened := summary.sessionsOpened + 1 }
  else if r.kind = kindSessionClose then
    { summary with
      sessionsClosed := summary.sessionsClosed + 1
      bytesIn := saturatingAdd summary.bytesIn (payloadU64 r.payload "bytes_in")
      bytesOut := saturatingAdd summary.bytesOut (payloadU64 r.payload "bytes_out") }
  else summary

/- The receipt without its `hash` and `sig`. -/
def Receipt.contentValue (r : Receipt) : Json.Value :=
  .object [("edge_id",.string r.edgeId),("kind",.string r.kind),("payload",r.payload),("prev_hash",.string r.prevHash),
    ("routing_token_hash",.string r.routingTokenHash),("seq",.number (.posInt r.seq)),("ts",.number (.fromI64 r.ts))]

def eqIgnoreAsciiCase (a b : String) : Bool := a.toList.map Char.toLower = b.toList.map Char.toLower

variable (crypto : SigningCrypto) (floats : Json.FloatText)

def contentPreimage (r : Receipt) : Bytes := asBytes (Json.canonicalJson floats r.contentValue)

def contentHash (r : Receipt) : Hash := crypto.sha256 (contentPreimage floats r)

def hexField (seq : UInt64) (field : String) (width : Nat) (text : String) : Except VerifyError Bytes :=
  match (Hex.decode text).filter (fun b => b.length = width) with
  | some b => .ok b
  | none => .error (.malformed seq field)

/- The state of the verifier between two receipts. -/
structure Progress where
  summary : VerifiedSummary := {}
  prev : Option (UInt64 × String) := none

def requiredPrevHash (anchor : Option String) (seq : UInt64) : Option String :=
  match anchor with
  | some a => some a
  | none => if seq = 1 then some genesisPrevHash else none

def link (anchor : Option String) (p : Progress) (r : Receipt) : Except VerifyError VerifiedSummary :=
  match p.prev with
  | some (prevSeq,prevHash) =>
    let expected := prevSeq + 1
    if r.seq ≠ expected then .error (.seqGap r.seq expected)
    else if r.prevHash ≠ prevHash then .error (.brokenLink r.seq)
    else if p.summary.edgeId ≠ some r.edgeId then .error (.edgeIdMismatch r.seq)
    else .ok p.summary
  | none =>
    if (requiredPrevHash anchor r.seq).any (fun required => !eqIgnoreAsciiCase r.prevHash required) then
      .error (.brokenLink r.seq)
    else .ok { p.summary with
      edgeId := some r.edgeId
      firstSeq := some r.seq
      firstTs := some r.ts
      firstPrevHash := some r.prevHash
      fromGenesis := r.seq = 1 && eqIgnoreAsciiCase r.prevHash genesisPrevHash }

def checkSeal (pubkey : Key) (r : Receipt) (hashBytes sigBytes : Bytes) : Except VerifyError Unit :=
  if (contentHash crypto floats r).toList ≠ hashBytes then .error (.hashMismatch r.seq)
  else
    match Slices.toArray 64 sigBytes with
    | none => .error (.malformed r.seq "sig")
    | some sig => if !crypto.verify pubkey hashBytes sig then .error (.badSignature r.seq) else .ok ()

def Progress.after (summary : VerifiedSummary) (r : Receipt) : Progress :=
  let summary := tally summary r
  { summary := { summary with
      count := summary.count + 1
      lastSeq := some r.seq
      lastTs := some r.ts
      lastHash := some r.hash }
    prev := some (r.seq,r.hash) }

def verifyReceipt (pubkey : Key) (anchor : Option String) (p : Progress) (r : Receipt) : Except VerifyError Progress := do
  let _ ← hexField r.seq "prev_hash" 32 r.prevHash
  let hashBytes ← hexField r.seq "hash" 32 r.hash
  let sigBytes ← hexField r.seq "sig" 64 r.sig
  let summary ← link anchor p r
  checkSeal crypto floats pubkey r hashBytes sigBytes
  .ok (.after summary r)

def verifyChainAnchored (receipts : List Receipt) (pubkey : Key) (anchor : Option String) :
    Except VerifyError VerifiedSummary :=
  if !crypto.isKey pubkey then .error .badPubkey
  else (receipts.foldlM (verifyReceipt crypto floats pubkey anchor) {}).map Progress.summary

def verifyChain (receipts : List Receipt) (pubkey : Key) : Except VerifyError VerifiedSummary :=
  verifyChainAnchored crypto floats receipts pubkey none

structure ReceiptSigner where
  seed : Seed
  edgeId : String

def ReceiptSigner.pubkeyBytes (s : ReceiptSigner) : Key := crypto.verifyingKey s.seed

def ReceiptSigner.sign (s : ReceiptSigner) (seq : UInt64) (prevHash : String) (ts : Int64) (kind routingTokenHash : String)
    (payload : Json.Value) : Receipt :=
  let r : Receipt := ⟨seq,prevHash,ts,s.edgeId,kind,routingTokenHash,payload,"",""⟩
  let hash := contentHash crypto floats r
  { r with
    sig := Hex.encode (crypto.sign s.seed hash.toList).toList
    hash := Hex.encode hash.toList }

/- What the emitter records; it numbers the receipts from 1 and links each to the one before. -/
structure Event where
  ts : Int64
  kind : String
  routingTokenHash : String
  payload : Json.Value

def emitFrom (s : ReceiptSigner) (seq : UInt64) (prevHash : String) : List Event → List Receipt
  | [] => []
  | e :: rest =>
    let r := s.sign crypto floats seq prevHash e.ts e.kind e.routingTokenHash e.payload
    r :: emitFrom s (seq + 1) r.hash rest

def emitted (s : ReceiptSigner) (events : List Event) : List Receipt := emitFrom crypto floats s 1 genesisPrevHash events

/- Everything a receipt says, with the payload up to the order of its object members. -/
structure Content where
  seq : UInt64
  prevHash : String
  ts : Int64
  edgeId : String
  kind : String
  routingTokenHash : String
  payload : Json.Value

def Receipt.content (r : Receipt) : Content :=
  ⟨r.seq,r.prevHash,r.ts,r.edgeId,r.kind,r.routingTokenHash,r.payload.sorted⟩

/- The signature a receipt carries verifies the hash of its content. -/
def Sealed (pubkey : Key) (r : Receipt) : Prop :=
  ∃ sig : Signature, Hex.decode r.sig = some sig.toList ∧
    crypto.verify pubkey (contentHash crypto floats r).toList sig = true

variable {crypto floats}

theorem fromI64Injective {i j : Int64} (same : Json.Number.fromI64 i = Json.Number.fromI64 j) : i = j := by
  rw [Json.Number.fromI64, Json.Number.fromI64] at same
  split at same <;> split at same <;> try contradiction
  · exact (Json.Number.negInt.inj same)
  · rw [← Int64.toInt64_toUInt64 i, Json.Number.posInt.inj same, Int64.toInt64_toUInt64]

theorem contentSorted (r : Receipt) :
    r.contentValue.sorted = .object [("edge_id",.string r.edgeId),("kind",.string r.kind),("payload",r.payload.sorted),
      ("prev_hash",.string r.prevHash),("routing_token_hash",.string r.routingTokenHash),
      ("seq",.number (.posInt r.seq)),("ts",.number (.fromI64 r.ts))] := by
  simp only [Receipt.contentValue, Json.Value.sorted, Json.sortedMembers, Json.sortMembers]
  have keys : ["edge_id","kind","payload","prev_hash","routing_token_hash","seq","ts"].Pairwise (· ≤ ·) := by decide
  rw [List.Pairwise.insertionSort_eq]
  exact List.pairwise_map.mp keys

/- Receipts with one preimage say the same. -/
theorem contentDetermined {r e : Receipt} (same : contentPreimage floats r = contentPreimage floats e) :
    r.content = e.content := by
  have values := Json.canonicalJsonDetermines (asBytesInjective same)
  rw [contentSorted, contentSorted] at values
  simp only [Json.Value.object.injEq, List.cons.injEq, Prod.mk.injEq, Json.Value.string.injEq, Json.Value.number.injEq,
    Json.Number.posInt.injEq, true_and, and_true] at values
  obtain ⟨edge,kind,payload,link,token,seq,ts⟩ := values
  simp only [Receipt.content, edge, kind, payload, link, token, seq, fromI64Injective ts]

theorem hexFieldRead {seq : UInt64} {field text : String} {width : Nat} {bytes : Bytes}
    (ok : hexField seq field width text = .ok bytes) : Hex.decode text = some bytes := by
  rw [hexField] at ok
  split at ok <;> try contradiction
  rename_i kept
  cases Except.ok.inj ok
  exact (Option.filter_eq_some_iff.mp kept).1

theorem sealChecked {pubkey : Key} {r : Receipt} {hashBytes sigBytes : Bytes} (read : Hex.decode r.sig = some sigBytes)
    (ok : checkSeal crypto floats pubkey r hashBytes sigBytes = .ok ()) : Sealed crypto floats pubkey r := by
  rw [checkSeal] at ok
  split at ok <;> try contradiction
  rename_i same
  split at ok <;> try contradiction
  rename_i sig parsed
  split at ok <;> try contradiction
  rename_i valid
  have list : sig.toList = sigBytes := by
    rw [Slices.toArray] at parsed
    split at parsed <;> try contradiction
    cases Option.some.inj parsed
    simp
  refine ⟨sig,by rw [read, list],?_⟩
  rw [not_not.mp same]
  simpa using valid

/- What the verifier has seen of a receipt that it passes. -/
theorem verified {pubkey : Key} {anchor : Option String} {p p' : Progress} {r : Receipt}
    (ok : verifyReceipt crypto floats pubkey anchor p r = .ok p') :
    Sealed crypto floats pubkey r ∧ (∃ summary, link anchor p r = .ok summary) ∧ p'.prev = some (r.seq,r.hash) := by
  rw [verifyReceipt, bindOk] at ok
  obtain ⟨_,_,ok⟩ := ok
  obtain ⟨hashBytes,_,ok⟩ := bindOk.mp ok
  obtain ⟨sigBytes,read,ok⟩ := bindOk.mp ok
  obtain ⟨summary,linked,ok⟩ := bindOk.mp ok
  obtain ⟨_,closed,ok⟩ := bindOk.mp ok
  cases Except.ok.inj ok
  exact ⟨sealChecked (hexFieldRead read) closed,⟨summary,linked⟩,rfl⟩

theorem linkNext {anchor : Option String} {p : Progress} {r : Receipt} {summary : VerifiedSummary} {seq : UInt64}
    {hash : String} (prev : p.prev = some (seq,hash)) (ok : link anchor p r = .ok summary) : r.seq = seq + 1 := by
  rw [link, prev] at ok
  simp only at ok
  split at ok <;> try contradiction
  rename_i next
  exact not_not.mp next

/- The receipts of an emitter are numbered one after the other. -/
theorem emittedSeq {s : ReceiptSigner} {seq : UInt64} {prevHash : String} {events : List Event} {i : Nat} {r : Receipt}
    (found : (emitFrom crypto floats s seq prevHash events)[i]? = some r) : r.seq = seq + .ofNat i := by
  induction events generalizing seq prevHash i with
  | nil => simp [emitFrom] at found
  | cons e rest ih =>
    cases i with
    | zero =>
      simp only [emitFrom, List.getElem?_cons_zero] at found
      cases Option.some.inj found
      simp [ReceiptSigner.sign]
    | succ i =>
      simp only [emitFrom, List.getElem?_cons_succ] at found
      rw [ih found, UInt64.add_assoc, UInt64.add_comm 1, UInt64.ofNat_add]
      rfl

theorem emittedLength (s : ReceiptSigner) (seq : UInt64) (prevHash : String) (events : List Event) :
    (emitFrom crypto floats s seq prevHash events).length = events.length := by
  induction events generalizing seq prevHash with
  | nil => rfl
  | cons e rest ih => rw [emitFrom, List.length_cons, ih, List.length_cons]

theorem emittedPosition {s : ReceiptSigner} {events : List Event} (fits : events.length < 2 ^ 64) {i : Nat} {r : Receipt}
    (found : (emitted crypto floats s events)[i]? = some r) : r.seq.toNat = i + 1 := by
  obtain ⟨bound,_⟩ := List.getElem?_eq_some_iff.mp found
  rw [emitted, emittedLength] at bound
  rw [emittedSeq found, UInt64.toNat_add, UInt64.toNat_ofNat', UInt64.toNat_one]
  omega

/- Where the content of a genuine receipt stands in the chain. -/
theorem genuinePosition {s : ReceiptSigner} {events : List Event} (fits : events.length < 2 ^ 64) {r e : Receipt}
    (mem : e ∈ emitted crypto floats s events) (same : r.content = e.content) :
    ∃ i, r.seq.toNat = i + 1 ∧ ((emitted crypto floats s events).map Receipt.content).drop i =
      r.content :: ((emitted crypto floats s events).map Receipt.content).drop (i + 1) := by
  obtain ⟨i,found⟩ := List.getElem?_of_mem mem
  have seq : r.seq = e.seq := congrArg Content.seq same
  have content : ((emitted crypto floats s events).map Receipt.content)[i]? = some r.content := by
    rw [List.getElem?_map, found, same]
    rfl
  obtain ⟨bound,value⟩ := List.getElem?_eq_some_iff.mp content
  refine ⟨i,by rw [seq, emittedPosition fits found],?_⟩
  rw [List.drop_eq_getElem_cons bound, value]

/- A list whose receipts all come from the emitter, numbered without a gap after `seq`. -/
theorem runContinues {s : ReceiptSigner} {events : List Event} (fits : events.length < 2 ^ 64) {pubkey : Key}
    {anchor : Option String} {receipts : List Receipt} {p p' : Progress} {seq : UInt64} {hash : String}
    (genuine : ∀ r ∈ receipts, Sealed crypto floats pubkey r →
      ∃ e ∈ emitted crypto floats s events, r.content = e.content)
    (prev : p.prev = some (seq,hash)) (ok : receipts.foldlM (verifyReceipt crypto floats pubkey anchor) p = .ok p') :
    receipts.map Receipt.content <+: ((emitted crypto floats s events).map Receipt.content).drop seq.toNat := by
  induction receipts generalizing p seq hash with
  | nil => exact List.nil_prefix
  | cons r rest ih =>
    obtain ⟨m,first,later⟩ := loopCons.mp ok
    obtain ⟨closed,⟨summary,linked⟩,next⟩ := verified first
    obtain ⟨e,mem,same⟩ := genuine r List.mem_cons_self closed
    obtain ⟨i,position,here⟩ := genuinePosition fits mem same
    have numbered : seq.toNat = i := by
      rw [linkNext prev linked, UInt64.toNat_add, UInt64.toNat_one] at position
      have bound := seq.toNat_lt
      omega
    have tail := ih (fun r' mem' => genuine r' (List.mem_cons_of_mem r mem')) next later
    rw [position] at tail
    rw [numbered, here, List.map_cons]
    exact List.cons_prefix_cons.mpr ⟨rfl,tail⟩

/- The first receipt may be any of the chain; what follows it is determined. -/
theorem verifiedRun {s : ReceiptSigner} {events : List Event} (fits : events.length < 2 ^ 64) {pubkey : Key}
    {receipts : List Receipt} {summary : VerifiedSummary}
    (genuine : ∀ r ∈ receipts, Sealed crypto floats pubkey r →
      ∃ e ∈ emitted crypto floats s events, r.content = e.content)
    (ok : verifyChain crypto floats receipts pubkey = .ok summary) :
    receipts.map Receipt.content <:+: (emitted crypto floats s events).map Receipt.content := by
  rw [verifyChain, verifyChainAnchored] at ok
  split at ok <;> try contradiction
  cases receipts with
  | nil => exact List.nil_infix
  | cons r rest =>
    cases done : (r :: rest).foldlM (verifyReceipt crypto floats pubkey none) {} with
    | error e => simp [done, Except.map] at ok
    | ok p' =>
      obtain ⟨m,first,later⟩ := loopCons.mp done
      obtain ⟨closed,_,next⟩ := verified first
      obtain ⟨e,mem,same⟩ := genuine r List.mem_cons_self closed
      obtain ⟨i,position,here⟩ := genuinePosition fits mem same
      have tail := runContinues fits (fun r' mem' => genuine r' (List.mem_cons_of_mem r mem')) next later
      rw [position] at tail
      have start : (r :: rest).map Receipt.content <+: ((emitted crypto floats s events).map Receipt.content).drop i := by
        rw [here, List.map_cons]
        exact List.cons_prefix_cons.mpr ⟨rfl,tail⟩
      exact start.isInfix.trans (List.drop_suffix i _).isInfix

/- Keys derived from a seed parse, and what is signed under a seed verifies under its key. -/
structure SigningCrypto.Correct (crypto : SigningCrypto) : Prop where
  keys : ∀ seed, crypto.isKey (crypto.verifyingKey seed) = true
  signs : ∀ seed (hash : Hash),
    crypto.verify (crypto.verifyingKey seed) hash.toList (crypto.sign seed hash.toList) = true

theorem hexFieldEncoded (seq : UInt64) (field : String) {width : Nat} {bytes : Bytes} (length : bytes.length = width) :
    hexField seq field width (Hex.encode bytes) = .ok bytes := by
  have kept : (some bytes).filter (fun b => b.length = width) = some bytes := by simp [Option.filter, length]
  rw [hexField, Hex.decodeEncode, kept]

theorem signedSeal (correct : crypto.Correct) (s : ReceiptSigner) (seq : UInt64) (prevHash : String) (e : Event) :
    let r := s.sign crypto floats seq prevHash e.ts e.kind e.routingTokenHash e.payload
    let hash := (contentHash crypto floats r).toList
    checkSeal crypto floats (s.pubkeyBytes crypto) r hash (crypto.sign s.seed hash).toList = .ok () := by
  intro r hash
  have sig : Slices.toArray 64 (crypto.sign s.seed hash).toList = some (crypto.sign s.seed hash) := by
    obtain ⟨v,read,list⟩ := Slices.toArraySome (crypto.sign s.seed hash).length_toList
    rw [read, Vector.toList_inj.mp list]
  have valid := correct.signs s.seed (contentHash crypto floats r)
  rw [checkSeal, if_neg (not_not.mpr rfl), sig]
  simp [ReceiptSigner.pubkeyBytes, hash, valid]

theorem tallyEdgeId (summary : VerifiedSummary) (r : Receipt) : (tally summary r).edgeId = summary.edgeId := by
  rw [tally]
  split
  · rfl
  · split <;> rfl

/- A genuine receipt passes as soon as it links. -/
theorem signedPasses (correct : crypto.Correct) (s : ReceiptSigner) {seq : UInt64} {prevBytes : Bytes}
    (length : prevBytes.length = 32) {e : Event} {r : Receipt}
    (signed : r = s.sign crypto floats seq (Hex.encode prevBytes) e.ts e.kind e.routingTokenHash e.payload)
    {anchor : Option String} {p : Progress} {summary : VerifiedSummary} (linked : link anchor p r = .ok summary) :
    verifyReceipt crypto floats (s.pubkeyBytes crypto) anchor p r = .ok (.after summary r) := by
  subst signed
  rw [verifyReceipt, bindOk]
  refine ⟨prevBytes,hexFieldEncoded _ _ length,?_⟩
  refine bindOk.mpr ⟨_,hexFieldEncoded _ _ Vector.length_toList,?_⟩
  refine bindOk.mpr ⟨_,hexFieldEncoded _ _ Vector.length_toList,?_⟩
  refine bindOk.mpr ⟨summary,linked,?_⟩
  exact bindOk.mpr ⟨(),signedSeal correct s seq (Hex.encode prevBytes) e,rfl⟩

/- After one genuine receipt of the edge, the rest of its chain passes. -/
theorem emittedContinues (correct : crypto.Correct) (s : ReceiptSigner) {events : List Event} {seq : UInt64} {p : Progress}
    {prevBytes : Bytes} (length : prevBytes.length = 32) (prev : p.prev = some (seq,Hex.encode prevBytes))
    (edge : p.summary.edgeId = some s.edgeId) :
    ∃ p', (emitFrom crypto floats s (seq + 1) (Hex.encode prevBytes) events).foldlM
      (verifyReceipt crypto floats (s.pubkeyBytes crypto) none) p = .ok p' := by
  induction events generalizing seq p prevBytes with
  | nil => exact ⟨p,rfl⟩
  | cons e rest ih =>
    let r := s.sign crypto floats (seq + 1) (Hex.encode prevBytes) e.ts e.kind e.routingTokenHash e.payload
    have linked : link none p r = .ok p.summary := by
      simp [link, prev, edge, r, ReceiptSigner.sign]
    have passes := signedPasses correct s length (rfl : r = _) linked
    have kept : (Progress.after p.summary r).summary.edgeId = some s.edgeId := (tallyEdgeId p.summary r).trans edge
    obtain ⟨p',later⟩ := ih Vector.length_toList rfl kept
    exact ⟨p',loopCons.mpr ⟨_,passes,later⟩⟩

theorem genesisHex : genesisPrevHash = Hex.encode (List.replicate 32 0) := by decide

theorem emittedVerifies (correct : crypto.Correct) (s : ReceiptSigner) (events : List Event) :
    ∃ summary, verifyChain crypto floats (emitted crypto floats s events) (s.pubkeyBytes crypto) = .ok summary := by
  have key : crypto.isKey (s.pubkeyBytes crypto) = true := correct.keys s.seed
  have run : ∃ p', (emitted crypto floats s events).foldlM
      (verifyReceipt crypto floats (s.pubkeyBytes crypto) none) {} = .ok p' := by
    cases events with
    | nil => exact ⟨{},rfl⟩
    | cons e rest =>
      let r := s.sign crypto floats 1 (Hex.encode (List.replicate 32 0)) e.ts e.kind e.routingTokenHash e.payload
      let summary : VerifiedSummary := {
        edgeId := some s.edgeId
        firstSeq := some 1
        firstTs := some e.ts
        firstPrevHash := some genesisPrevHash
        fromGenesis := true }
      have linked : link none {} r = .ok summary := by
        simp only [r]
        rw [← genesisHex]
        simp [link, requiredPrevHash, eqIgnoreAsciiCase, ReceiptSigner.sign, summary]
      have passes := signedPasses correct s List.length_replicate (rfl : r = _) linked
      have edge : (Progress.after summary r).summary.edgeId = some s.edgeId := tallyEdgeId summary r
      obtain ⟨p',later⟩ := emittedContinues correct s Vector.length_toList rfl edge
      rw [emitted, genesisHex]
      exact ⟨p',loopCons.mpr ⟨_,passes,later⟩⟩
  obtain ⟨p',done⟩ := run
  exact ⟨p'.summary,by simp [verifyChain, verifyChainAnchored, key, done, Except.map]⟩

theorem emittedTake (s : ReceiptSigner) (seq : UInt64) (prevHash : String) (events : List Event) (k : Nat) :
    (emitFrom crypto floats s seq prevHash events).take k = emitFrom crypto floats s seq prevHash (events.take k) := by
  induction events generalizing seq prevHash k with
  | nil => simp [emitFrom]
  | cons e rest ih =>
    cases k with
    | zero => simp [emitFrom]
    | succ k => rw [emitFrom, List.take_succ_cons, List.take_succ_cons, emitFrom, ih]

/- Every signature of the list verifies only hashes that the emitter signed. -/
def Unforged (crypto : SigningCrypto) (floats : Json.FloatText) (s : ReceiptSigner) (chain receipts : List Receipt) : Prop :=
  ∀ r ∈ receipts, ∀ (sig : Signature) (message : Bytes), Hex.decode r.sig = some sig.toList →
    crypto.verify (s.pubkeyBytes crypto) message sig = true → ∃ e ∈ chain, message = (contentHash crypto floats e).toList

def preimages (floats : Json.FloatText) (receipts : List Receipt) : Set Bytes :=
  {raw | ∃ r ∈ receipts, contentPreimage floats r = raw}

/- What verifies under the emitter's key is a run of its chain, and every run from its first receipt
verifies. -/
theorem verifiedIsGenuine (crypto : SigningCrypto) (correct : crypto.Correct) (floats : Json.FloatText) (s : ReceiptSigner)
    (events : List Event) (fits : events.length < 2 ^ 64) :
    (∀ receipts summary, Unforged crypto floats s (emitted crypto floats s events) receipts →
      Set.InjOn crypto.sha256 (preimages floats receipts ∪ preimages floats (emitted crypto floats s events)) →
      verifyChain crypto floats receipts (s.pubkeyBytes crypto) = .ok summary →
      receipts.map Receipt.content <:+: (emitted crypto floats s events).map Receipt.content) ∧
    ∀ k, ∃ summary,
      verifyChain crypto floats ((emitted crypto floats s events).take k) (s.pubkeyBytes crypto) = .ok summary := by
  constructor
  · intro receipts summary unforged collisionFree ok
    refine verifiedRun fits ?_ ok
    intro r memR closed
    obtain ⟨sig,read,valid⟩ := closed
    obtain ⟨e,memE,same⟩ := unforged r memR sig _ read valid
    have hashes : contentHash crypto floats r = contentHash crypto floats e := Vector.toList_inj.mp same
    exact ⟨e,memE,contentDetermined (collisionFree (.inl ⟨r,memR,rfl⟩) (.inr ⟨e,memE,rfl⟩) hashes)⟩
  · intro k
    rw [emitted, emittedTake]
    exact emittedVerifies correct s (events.take k)

/- A session that opens and closes. -/
def opening : Event :=
  ⟨5,kindSessionOpen,"token",.object [("transport",.string "quic"),("connected_at",.number (.posInt 5))]⟩
def closing : Event :=
  ⟨9,kindSessionClose,"token",.object [("reason",.string "idle"),("bytes_in",.number (.posInt 3))]⟩

/- A writer of numbers with a fraction; none occurs in the two events. -/
def pointZero : Json.FloatText where
  text f := Nat.toDigits 10 f.bits.toNat ++ ['.','0']
  injective := by
    intro f g same
    have bits := Json.digitsInjective (List.append_cancel_right same)
    cases f
    cases g
    simp only [Json.FiniteFloat.mk.injEq]
    exact UInt64.toNat_inj.mp bits
  numeric := by
    intro f c mem
    rcases List.mem_append.mp mem with digit | zero
    · exact .inl (Json.digitsNumeric digit)
    · simp only [List.mem_cons, List.not_mem_nil, or_false] at zero
      rcases zero with rfl | rfl <;> decide
  fraction f := ⟨'.',by simp,.inl rfl⟩

/- Stand-in primitives: the hash tells the first receipt from every other, and a signature is the
hash with the key. -/
def openingContent : Json.Value :=
  .object [("edge_id",.string "edge"),("kind",.string opening.kind),("payload",opening.payload),
    ("prev_hash",.string genesisPrevHash),("routing_token_hash",.string opening.routingTokenHash),
    ("seq",.number (.posInt 1)),("ts",.number (.fromI64 opening.ts))]

def openingPreimage : Bytes := asBytes (Json.canonicalJson pointZero openingContent)

def plainSigning : SigningCrypto where
  verify key message sig := sig.toList = message ++ key.toList
  sha256 raw := .replicate 32 (if raw = openingPreimage then 1 else 0)
  isKey _ := true
  verifyingKey seed := seed
  sign seed message := .ofFn (fun i => (message ++ seed.toList).getD i.val 0)

theorem plainSignature (seed : Seed) (hash : Hash) :
    (plainSigning.sign seed hash.toList).toList = hash.toList ++ seed.toList := by
  refine List.ext_getElem (by simp) ?_
  intro i left right
  simp [plainSigning, List.getD_eq_getElem?_getD]

theorem plainSigningCorrect : plainSigning.Correct where
  keys _ := rfl
  signs := by
    intro seed hash
    have same := plainSignature seed hash
    simp only [plainSigning] at same ⊢
    rw [same, decide_eq_true_eq]

theorem signedSig (s : ReceiptSigner) (seq : UInt64) (prevHash : String) (e : Event) {r : Receipt}
    (signed : r = s.sign crypto floats seq prevHash e.ts e.kind e.routingTokenHash e.payload) :
    r.sig = Hex.encode (crypto.sign s.seed (contentHash crypto floats r).toList).toList := by
  subst signed
  rfl

theorem openingVerified :
    let edge : ReceiptSigner := ⟨.replicate 32 7,"edge"⟩
    let chain := emitted plainSigning pointZero edge [opening,closing]
    ∃ summary, verifyChain plainSigning pointZero (chain.take 1) (edge.pubkeyBytes plainSigning) = .ok summary ∧
      (chain.take 1).map Receipt.content <:+: chain.map Receipt.content := by
  intro edge chain
  let first := edge.sign plainSigning pointZero 1 genesisPrevHash opening.ts opening.kind opening.routingTokenHash
    opening.payload
  let second := edge.sign plainSigning pointZero 2 first.hash closing.ts closing.kind closing.routingTokenHash
    closing.payload
  have receipts : chain = [first,second] := rfl
  have taken : chain.take 1 = [first] := rfl
  have law := verifiedIsGenuine plainSigning plainSigningCorrect pointZero edge [opening,closing] (by decide)
  obtain ⟨summary,ok⟩ := law.2 1
  refine ⟨summary,ok,law.1 _ summary ?_ ?_ ok⟩
  · intro r mem sig message read valid
    cases List.mem_singleton.mp (taken ▸ mem)
    have hash : Hex.decode first.sig = some ((contentHash plainSigning pointZero first).toList ++ edge.seed.toList) := by
      rw [← plainSignature, signedSig edge 1 genesisPrevHash opening (rfl : first = _), Hex.decodeEncode]
    have same : sig.toList = message ++ edge.seed.toList := of_decide_eq_true valid
    rw [hash, same] at read
    exact ⟨first,List.mem_cons_self,(List.append_cancel_right (Option.some.inj read)).symm⟩
  · have here : contentPreimage pointZero first = openingPreimage :=
      congrArg (fun v => asBytes (Json.canonicalJson pointZero v)) (rfl : first.contentValue = openingContent)
    have other : contentPreimage pointZero second ≠ openingPreimage := by
      intro same
      have seq : (2 : UInt64) = 1 := congrArg Content.seq (contentDetermined (same.trans here.symm))
      exact absurd seq (by decide)
    have known : ∀ raw ∈ preimages pointZero (chain.take 1) ∪ preimages pointZero chain,
        raw = openingPreimage ∨ raw = contentPreimage pointZero second := by
      intro raw mem
      rcases mem with ⟨r,mem,same⟩ | ⟨r,mem,same⟩
      · have opens : r = first := List.mem_singleton.mp (taken ▸ mem)
        rw [opens, here] at same
        exact .inl same.symm
      · rcases List.mem_cons.mp (receipts ▸ mem) with opens | later
        · rw [opens, here] at same
          exact .inl same.symm
        · have closes : r = second := List.mem_singleton.mp later
          rw [closes] at same
          exact .inr same.symm
    have firstHash : plainSigning.sha256 openingPreimage = .replicate 32 1 := congrArg (Vector.replicate 32) (if_pos rfl)
    have otherHash : plainSigning.sha256 (contentPreimage pointZero second) = .replicate 32 0 :=
      congrArg (Vector.replicate 32) (if_neg other)
    have differ : plainSigning.sha256 openingPreimage ≠ plainSigning.sha256 (contentPreimage pointZero second) := by
      rw [firstHash, otherHash]
      decide
    intro a memA b memB same
    rcases known a memA with left | left <;> rcases known b memB with right | right <;> rw [left, right] at same ⊢
    · exact absurd same differ
    · exact absurd same.symm differ

end CadsTunnel.Receipts
