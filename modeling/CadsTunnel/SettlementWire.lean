import CadsTunnel.Slices
import CadsTunnel.SettlementTamper

/-! The binary wire forms of the settlement objects. A decoder here may panic: every
slice, index and length of the source is checked where the source checks it and
nowhere else, and the results show that no input gets that far. -/
namespace CadsTunnel
open Words Slices Delimited

namespace ChannelObjects

def CapacityKind.fromTag (tag : UInt8) : Option CapacityKind :=
  if tag = 0 then some .cloudApiQuota else if tag = 1 then some .localHardware else none

namespace UsageReceipt

def encode (r : UsageReceipt) : Bytes :=
  r.provider.toList ++ r.consumer.toList ++ [r.kind.tag] ++ u32LE (.ofNat (asBytes r.model).length) ++
    asBytes r.model ++ u64LE r.unitsConsumed ++ r.matchRef.toList ++ u64LE r.issuedAt ++ r.requestHash.toList ++
    r.responseHash.toList ++ r.providerSig.toList ++ r.consumerSig.toList

def read : Cursor UsageReceipt := do
  let provider ← array 32 (← take 32)
  let consumer ← array 32 (← take 32)
  let kind ← ofOption (CapacityKind.fromTag (← index (← take 1) 0))
  let modelLen := fromLeBytes (← array 4 (← take 4))
  let model ← ofOption (fromUtf8 (← take modelLen))
  let unitsConsumed := UInt64.ofNat (fromLeBytes (← array 8 (← take 8)))
  let matchRef ← array 32 (← take 32)
  let issuedAt := UInt64.ofNat (fromLeBytes (← array 8 (← take 8)))
  let requestHash ← array 32 (← take 32)
  let responseHash ← array 32 (← take 32)
  let providerSig ← array 64 (← take 64)
  let consumerSig ← array 64 (← take 64)
  return { provider, consumer, kind, model, unitsConsumed, matchRef, issuedAt, requestHash, responseHash,
           providerSig, consumerSig }

/- Bytes behind the receipt make it malformed. -/
def decode (b : Bytes) : Attempt UsageReceipt := do
  let answer ← read.run b
  if !answer.2.isEmpty then failure else return answer.1

theorem fromTagSome {tag : UInt8} {kind : CapacityKind} (some : CapacityKind.fromTag tag = some kind) :
    kind.tag = tag := by
  unfold CapacityKind.fromTag at some
  split at some
  · rename_i zero
    cases Option.some.inj some
    exact zero.symm
  · split at some <;> try contradiction
    rename_i one
    cases Option.some.inj some
    exact one.symm

theorem takeText {α : Type} {n : Nat} {cur : Bytes} {f : String → Cursor α} {post : α → Bytes → Prop}
    (next : ∀ s rest, cur = asBytes s ++ rest → (asBytes s).length = n → Reads (f s) rest post) :
    Reads (do f (← ofOption (fromUtf8 (← take n)))) cur post := by
  refine Reads.bind (takeReads n cur) ?_
  intro front rest parts
  refine Reads.bind (Reads.lift (Answers.ofOption (fun s => fromUtf8Some) False.elim)) ?_
  intro s left read
  rw [read.2]
  exact next s rest (read.1 ▸ parts.1) (read.1 ▸ parts.2)

theorem readReads (b : Bytes) : Reads read b (fun r rest => b = r.encode ++ rest) := by
  unfold read
  refine takeArray ?_
  intro provider cur first
  refine takeArray ?_
  intro consumer cur second
  refine takeByte (fun _ _ => fromTagSome) ?_
  intro kind cur third
  refine takeArray ?_
  intro modelLen cur fourth
  refine takeText ?_
  intro model cur fifth length
  refine takeArray ?_
  intro unitsConsumed cur sixth
  refine takeArray ?_
  intro matchRef cur seventh
  refine takeArray ?_
  intro issuedAt cur eighth
  refine takeArray ?_
  intro requestHash cur ninth
  refine takeArray ?_
  intro responseHash cur tenth
  refine takeArray ?_
  intro providerSig cur eleventh
  refine takeArray ?_
  intro consumerSig cur twelfth
  refine Reads.pure ?_
  have count : u32LE (.ofNat (asBytes model).length) = modelLen.toList := by
    rw [u32LECount, length, leFromLeBytes]
  simp only [encode, count, u64LEFromLeBytes, List.append_assoc, List.cons_append, List.nil_append]
  rw [first, second, third, fourth, fifth, sixth, seventh, eighth, ninth, tenth, eleventh, twelfth]

theorem decodeAnswers (b : Bytes) : Answers False (decode b) (fun r => r.encode = b) := by
  refine Answers.bind (readReads b) ?_
  intro answer whole
  split
  · exact .failure not_false
  · rename_i empty
    have nothing : answer.2 = [] := by simpa using empty
    refine .pure ?_
    rw [whole, nothing, List.append_nil]

theorem fromTagTag (kind : CapacityKind) : CapacityKind.fromTag kind.tag = some kind := by
  cases kind <;> rfl

theorem takeTextFront {α : Type} (s : String) (f : String → Cursor α) (rest : Bytes) :
    StateT.run (do f (← ofOption (fromUtf8 (← take (asBytes s).length)))) (asBytes s ++ rest) = (f s).run rest := by
  rw [takeFront rfl, fromUtf8Bytes]
  rfl

theorem readEncode (r : UsageReceipt) (short : (asBytes r.model).length < 2 ^ 32) :
    read.run r.encode = pure (r,[]) := by
  have length : fromLeBytes (toLeBytes 4 (asBytes r.model).length) = (asBytes r.model).length := fromLeToLe short
  simp only [encode, u32LECount, u64LE, ← toLeBytesList, List.append_assoc]
  refine (takeArrayFront _ _ _).trans ?_
  refine (takeArrayFront _ _ _).trans ?_
  refine (takeByteFront _ (fromTagTag _) _ _).trans ?_
  refine (takeArrayFront _ _ _).trans ?_
  rw [length]
  refine (takeTextFront _ _ _).trans ?_
  refine (takeArrayFront _ _ _).trans ?_
  refine (takeArrayFront _ _ _).trans ?_
  refine (takeArrayFront _ _ _).trans ?_
  refine (takeArrayFront _ _ _).trans ?_
  refine (takeArrayFront _ _ _).trans ?_
  refine (takeArrayFront _ _ _).trans ?_
  rw [← List.append_nil r.consumerSig.toList]
  refine (takeArrayFront _ _ _).trans ?_
  simp only [u64FromLeToLe]
  rfl

theorem decodeEncode (r : UsageReceipt) (short : (asBytes r.model).length < 2 ^ 32) : decode r.encode = pure r := by
  rw [decode, readEncode r short]
  rfl

end UsageReceipt
end ChannelObjects

namespace Settlement
open ChannelObjects (UsageReceipt)

def Transfer.wireLen : Nat := 32 + 32 + 8 + 8 + 64

def Transfer.decode (b : Bytes) : Attempt Transfer :=
  if b.length ≠ wireLen then failure
  else do
    let sender ← array 32 (← slice b 0 32)
    let recipient ← array 32 (← slice b 32 64)
    let amount := UInt64.ofNat (fromLeBytes (← array 8 (← slice b 64 72)))
    let nonce := UInt64.ofNat (fromLeBytes (← array 8 (← slice b 72 80)))
    let signature ← array 64 (← slice b 80 144)
    pure ⟨sender,recipient,amount,nonce,signature⟩

namespace Block

def encode (b : Block) : Bytes :=
  u64LE b.height ++ b.prevHash.toList ++ u32LE (.ofNat b.transfers.length) ++ b.transfers.flatMap Transfer.encode ++
    b.hash.toList

def head : Nat := 8 + 32 + 4

def decode (b : Bytes) : Attempt Block :=
  if b.length < head + 32 then failure
  else do
    let height := UInt64.ofNat (fromLeBytes (← array 8 (← slice b 0 8)))
    let prevHash ← array 32 (← slice b 8 40)
    let count := fromLeBytes (← array 4 (← slice b 40 44))
    let body ← checked (count * Transfer.wireLen)
    let expected ← checked ((← checked (head + body)) + 32)
    if b.length ≠ expected then failure
    else do
      let transfers ← (List.range' 0 count).mapM fun i => do
        let off ← usize (head + (← usize (i * Transfer.wireLen)))
        Transfer.decode (← slice b off (← usize (off + Transfer.wireLen)))
      let hash ← array 32 (← slice b (← usizeSub expected 32) expected)
      pure ⟨height,prevHash,transfers,hash⟩

end Block

namespace Hold

def wireLen : Nat := 32 + 32 + 8 + 32 + 8 + 8 + 64

def encode (h : Hold) : Bytes :=
  h.sender.toList ++ h.recipient.toList ++ u64LE h.amount ++ h.matchRef.toList ++ u64LE h.nonce ++
    u64LE h.expiresAt ++ h.signature.toList

def decode (b : Bytes) : Attempt Hold :=
  if b.length ≠ wireLen then failure
  else do
    let sender ← array 32 (← slice b 0 32)
    let recipient ← array 32 (← slice b 32 64)
    let amount := UInt64.ofNat (fromLeBytes (← array 8 (← slice b 64 72)))
    let matchRef ← array 32 (← slice b 72 104)
    let nonce := UInt64.ofNat (fromLeBytes (← array 8 (← slice b 104 112)))
    let expiresAt := UInt64.ofNat (fromLeBytes (← array 8 (← slice b 112 120)))
    let signature ← array 64 (← slice b 120 184)
    pure ⟨sender,recipient,amount,matchRef,nonce,expiresAt,signature⟩

end Hold

inductive SettlementOp where
  | transfer (t : Transfer)
  | hold (h : Hold)
  | release (r : UsageReceipt)
  | refund (matchRef : Hash)
  deriving DecidableEq, Repr

namespace SettlementOp

def tag : SettlementOp → UInt8
  | .transfer _ => 0
  | .hold _ => 1
  | .release _ => 2
  | .refund _ => 3

def encode (op : SettlementOp) : Bytes :=
  op.tag :: match op with
    | .transfer t => t.encode
    | .hold h => h.encode
    | .release r => r.encode
    | .refund matchRef => matchRef.toList

def decode (b : Bytes) : Attempt SettlementOp :=
  match b with
  | [] => failure
  | tag :: payload =>
    if tag = 0 then do return .transfer (← Transfer.decode payload)
    else if tag = 1 then do return .hold (← Hold.decode payload)
    else if tag = 2 then do return .release (← UsageReceipt.decode payload)
    else if tag = 3 then
      if payload.length = 32 then
        match toArray 32 payload with
        | some matchRef => pure (.refund matchRef)
        | none => halt .unwrappedNone
      else failure
    else failure

end SettlementOp

theorem Transfer.decodeAnswers (b : Bytes) : Answers (b.length = wireLen) (decode b) (fun t => t.encode = b) := by
  rw [decode]
  split
  · rename_i mismatch
    exact .failure mismatch
  rename_i length
  have inside : b.length = 144 := not_not.mp length
  refine fieldAnswers (by omega) rfl ?_
  intro sender first
  refine fieldAnswers (by omega) rfl ?_
  intro recipient second
  refine fieldAnswers (by omega) rfl ?_
  intro amount third
  refine fieldAnswers (by omega) rfl ?_
  intro nonce fourth
  refine fieldAnswers (by omega) rfl ?_
  intro signature fifth
  refine .pure ?_
  simp (disch := decide) only [encode, u64LEFromLeBytes, first, second, third, fourth, fifth, pieceAppend]
  exact pieceWhole inside

theorem Transfer.encodeLength (t : Transfer) : t.encode.length = wireLen := by
  simp [encode, u64LE, leLength, wireLen]

theorem Hold.decodeAnswers (b : Bytes) : Answers (b.length = wireLen) (decode b) (fun h => h.encode = b) := by
  rw [decode]
  split
  · rename_i mismatch
    exact .failure mismatch
  rename_i length
  have inside : b.length = 184 := not_not.mp length
  refine fieldAnswers (by omega) rfl ?_
  intro sender first
  refine fieldAnswers (by omega) rfl ?_
  intro recipient second
  refine fieldAnswers (by omega) rfl ?_
  intro amount third
  refine fieldAnswers (by omega) rfl ?_
  intro matchRef fourth
  refine fieldAnswers (by omega) rfl ?_
  intro nonce fifth
  refine fieldAnswers (by omega) rfl ?_
  intro expiresAt sixth
  refine fieldAnswers (by omega) rfl ?_
  intro signature seventh
  refine .pure ?_
  simp (disch := decide) only [encode, u64LEFromLeBytes, first, second, third, fourth, fifth, sixth, seventh,
    pieceAppend]
  exact pieceWhole inside

theorem Hold.encodeLength (h : Hold) : h.encode.length = wireLen := by
  simp [encode, u64LE, leLength, wireLen]

theorem holdDelimits : Delimits Everything Hold.encode := by
  intro a b _ _ r s same
  simp only [Hold.encode, List.append_assoc] at same
  obtain ⟨sender,rest⟩ := arrayDelimits 32 trivial trivial same
  obtain ⟨recipient,rest⟩ := arrayDelimits 32 trivial trivial rest
  obtain ⟨amount,rest⟩ := u64Delimits trivial trivial rest
  obtain ⟨matchRef,rest⟩ := arrayDelimits 32 trivial trivial rest
  obtain ⟨nonce,rest⟩ := u64Delimits trivial trivial rest
  obtain ⟨expiresAt,rest⟩ := u64Delimits trivial trivial rest
  obtain ⟨signature,rest⟩ := arrayDelimits 64 trivial trivial rest
  have equal : a = b := by
    cases a
    cases b
    simp only [Hold.mk.injEq]
    exact ⟨sender,recipient,amount,matchRef,nonce,expiresAt,signature⟩
  exact ⟨equal,rest⟩

namespace Block

theorem transfersLength (ts : List Transfer) : (ts.flatMap Transfer.encode).length = ts.length * Transfer.wireLen := by
  induction ts with
  | nil => rfl
  | cons t ts ih => rw [List.flatMap_cons, List.length_append, ih, t.encodeLength, List.length_cons, Nat.succ_mul, Nat.add_comm]

theorem encodeLength (b : Block) : b.encode.length = head + b.transfers.length * Transfer.wireLen + 32 := by
  simp only [encode, u64LE, u32LE, List.length_append, leLength, transfersLength, Vector.length_toList, head]

/- The loop over the transfers reads the records from `start` on. -/
theorem transfersAnswers {must : Prop} {b : Bytes} (start : Nat) {n : Nat} (count : start + n < 2 ^ 32)
    (inside : head + (start + n) * Transfer.wireLen ≤ b.length) :
    Answers must ((List.range' start n).mapM fun i => do
        let off ← usize (head + (← usize (i * Transfer.wireLen)))
        Transfer.decode (← slice b off (← usize (off + Transfer.wireLen))))
      (fun ts => ts.length = n ∧ ts.flatMap Transfer.encode =
        piece b (head + start * Transfer.wireLen) (head + (start + n) * Transfer.wireLen)) := by
  induction n generalizing start with
  | zero => exact .pure ⟨rfl,by simp [piece]⟩
  | succ n ih =>
    have wire : Transfer.wireLen = 144 := rfl
    have front : head = 44 := rfl
    simp only [wire, front] at ih inside ⊢
    simp only [List.range'_succ, List.mapM_cons]
    refine @Answers.bind _ _ _ _ _ (fun t : Transfer => t.encode = piece b (44 + start * 144) (44 + (start + 1) * 144)) _ ?_ ?_
    · refine Answers.bind (usizeAnswers (by omega)) ?_
      intro skipped same
      subst same
      refine Answers.bind (usizeAnswers (by omega)) ?_
      intro off same
      subst same
      refine Answers.bind (usizeAnswers (by omega)) ?_
      intro stop same
      subst same
      refine Answers.bind (sliceAnswers (by omega) (by omega)) ?_
      intro raw same
      subst same
      refine (Transfer.decodeAnswers _).mono ?_ ?_
      · intro _
        rw [pieceLength (by omega), wire]
        omega
      · intro t encoded
        rw [encoded]
        congr 1
        omega
    · intro t first
      refine Answers.bind (ih (start + 1) (by omega) (by omega)) ?_
      intro ts rest
      refine .pure ⟨by simp [rest.1],?_⟩
      rw [List.flatMap_cons, first, rest.2, pieceAppend b (by omega) (by omega)]
      congr 1
      omega

/- The count field of a block. -/
def countField (b : Bytes) : Nat := readLE (piece b 40 44)

theorem decodeAnswers (b : Bytes) :
    Answers (b.length = head + countField b * Transfer.wireLen + 32) (decode b)
      (fun block => block.encode = b ∧ block.transfers.length < 2 ^ 32) := by
  have wire : Transfer.wireLen = 144 := rfl
  have front : head = 44 := rfl
  rw [decode]
  split
  · rename_i short
    refine .failure ?_
    intro length
    omega
  rename_i enough
  refine fieldAnswers (by omega) rfl ?_
  intro height first
  refine fieldAnswers (by omega) rfl ?_
  intro prevHash second
  refine fieldAnswers (by omega) rfl ?_
  intro count third
  have counted : countField b = fromLeBytes count := by rw [countField, ← third, fromLeBytes]
  have bound : fromLeBytes count < 2 ^ 32 := fromLeBytesLt count
  simp only [counted, wire, front] at enough ⊢
  refine Answers.bind (checkedAnswers (by omega)) ?_
  intro body same
  subst same
  refine Answers.bind (checkedAnswers (by omega)) ?_
  intro upTo same
  subst same
  refine Answers.bind (checkedAnswers (by omega)) ?_
  intro expected same
  subst same
  split
  · rename_i mismatch
    exact .failure mismatch
  rename_i length
  have length := not_not.mp length
  refine Answers.bind (transfersAnswers 0 (by omega) (by rw [wire, front]; omega)) ?_
  intro transfers fourth
  refine Answers.bind (usizeSubAnswers (by omega)) ?_
  intro behind same
  subst same
  refine fieldAnswers (by omega) (by omega) ?_
  intro hash fifth
  refine .pure ⟨?_,fourth.1 ▸ bound⟩
  have size : u32LE (.ofNat transfers.length) = count.toList := by rw [u32LECount, fourth.1, leFromLeBytes]
  have records : piece b (head + 0 * Transfer.wireLen) (head + (0 + fromLeBytes count) * Transfer.wireLen) =
      piece b 44 (44 + fromLeBytes count * 144) := by simp only [wire, front, Nat.zero_mul, Nat.zero_add, Nat.add_zero]
  simp only [encode, size, u64LEFromLeBytes, first, second, third, fourth.2, fifth, records, Nat.add_sub_cancel]
  rw [pieceAppend b (by decide) (by decide), pieceAppend b (by decide) (by decide), pieceAppend b (by decide) (by omega),
    pieceAppend b (by omega) (by omega), pieceWhole length]

theorem countFieldEncode (block : Block) (small : block.transfers.length < 2 ^ 32) :
    countField block.encode = block.transfers.length := by
  have field : piece block.encode 40 44 = le 4 block.transfers.length := by
    rw [encode, u32LECount, List.append_assoc, List.append_assoc]
    exact pieceOfAppend _ _ (by simp [u64LE, leLength]) (by simp [leLength])
  rw [countField, field, readLeBounded small]

theorem decodeEncode (block : Block) (small : block.transfers.length < 2 ^ 32) : decode block.encode = pure block := by
  refine (decodeAnswers block.encode).only ?_ ?_
  · rw [countFieldEncode block small, encodeLength]
  · intro other read
    obtain ⟨same,bound⟩ := read
    simp only [encode, u32LECount, List.append_assoc] at same
    obtain ⟨heights,rest⟩ := u64Delimits trivial trivial same
    obtain ⟨links,rest⟩ := arrayDelimits 32 trivial trivial rest
    rw [← List.append_assoc, ← List.append_assoc] at rest
    obtain ⟨transfers,hashes⟩ := countedDelimits 4 transferDelimits ⟨bound,fun _ _ => trivial⟩
      ⟨small,fun _ _ => trivial⟩ rest
    exact Block.ext heights links transfers (Vector.toList_inj.mp hashes)

end Block

theorem Transfer.decodeEncode (t : Transfer) : decode t.encode = pure t :=
  (decodeAnswers t.encode).only t.encodeLength (fun _ same => transferDelimits.injective trivial trivial same)

theorem Hold.decodeEncode (h : Hold) : decode h.encode = pure h :=
  (decodeAnswers h.encode).only h.encodeLength (fun _ same => holdDelimits.injective trivial trivial same)

namespace SettlementOp

/- The variable parts of an operation fit their length field. -/
def Short : SettlementOp → Prop
  | .release r => (asBytes r.model).length < 2 ^ 32
  | _ => True

theorem decodeEncode (op : SettlementOp) (short : op.Short) : decode op.encode = pure op := by
  cases op with
  | transfer t =>
    change (do return SettlementOp.transfer (← Transfer.decode t.encode)) = _
    rw [t.decodeEncode]
    rfl
  | hold h =>
    change (do return SettlementOp.hold (← Hold.decode h.encode)) = _
    rw [h.decodeEncode]
    rfl
  | release r =>
    change (do return SettlementOp.release (← UsageReceipt.decode r.encode)) = _
    rw [r.decodeEncode short]
    rfl
  | refund matchRef =>
    obtain ⟨v,fits,list⟩ := toArraySome matchRef.length_toList
    cases Vector.toList_inj.mp list
    change (if matchRef.toList.length = 32 then (match toArray 32 matchRef.toList with
      | some matchRef => pure (SettlementOp.refund matchRef)
      | none => halt .unwrappedNone) else failure) = _
    rw [if_pos matchRef.length_toList, fits]

theorem decodeAnswers (b : Bytes) : Answers False (decode b) (fun op => op.encode = b) := by
  cases b with
  | nil => exact .failure not_false
  | cons tag payload =>
    rw [decode]
    split
    · rename_i kind
      refine Answers.bind ((Transfer.decodeAnswers payload).mono False.elim fun _ => id) ?_
      intro t same
      exact .pure (kind ▸ same ▸ rfl)
    split
    · rename_i kind
      refine Answers.bind ((Hold.decodeAnswers payload).mono False.elim fun _ => id) ?_
      intro h same
      exact .pure (kind ▸ same ▸ rfl)
    split
    · rename_i kind
      refine Answers.bind (UsageReceipt.decodeAnswers payload) ?_
      intro r same
      exact .pure (kind ▸ same ▸ rfl)
    split
    · rename_i kind
      split
      · rename_i length
        obtain ⟨v,fits,list⟩ := toArraySome length
        rw [fits]
        exact .pure (kind ▸ list ▸ rfl)
      · exact .failure not_false
    · exact .failure not_false

end SettlementOp

theorem wireFormsCanonical :
    Canonical (fun _ => True) Transfer.encode Transfer.decode ∧
    Canonical (fun block : Block => block.transfers.length < 2 ^ 32) Block.encode Block.decode ∧
    Canonical (fun _ => True) Hold.encode Hold.decode ∧
    Canonical (fun r : UsageReceipt => (asBytes r.model).length < 2 ^ 32) UsageReceipt.encode UsageReceipt.decode ∧
    Canonical SettlementOp.Short SettlementOp.encode SettlementOp.decode := by
  refine ⟨.ofAnswers ?_ ?_,.ofAnswers Block.decodeEncode ?_,.ofAnswers ?_ ?_,
    .ofAnswers UsageReceipt.decodeEncode UsageReceipt.decodeAnswers,
    .ofAnswers SettlementOp.decodeEncode SettlementOp.decodeAnswers⟩
  · intro t _
    exact t.decodeEncode
  · intro b
    exact (Transfer.decodeAnswers b).mono False.elim fun _ => id
  · intro b
    exact (Block.decodeAnswers b).mono False.elim fun _ => And.left
  · intro h _
    exact h.decodeEncode
  · intro b
    exact (Hold.decodeAnswers b).mono False.elim fun _ => id

end Settlement
end CadsTunnel
