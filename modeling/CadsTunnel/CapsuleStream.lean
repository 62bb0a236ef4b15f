import CadsTunnel.Slices
import CadsTunnel.StreamDecoder

/-! The capsules in which the proxy's stream carries UDP datagrams: a type, a length and that
many bytes, with variable-length integers for the numbers. Chunks of the stream are appended
to what is kept, and every complete capsule is taken from the front; those of the datagram
type whose context is zero are sent on. -/
namespace CadsTunnel.Capsules
open Words Slices StreamDecoder

namespace Varint

/- The largest value is below 2^62; beyond it the source panics. -/
def encode (v : UInt64) (out : Bytes) : Option Bytes :=
  if v < (1 : UInt64) <<< 6 then some (out ++ [v.toUInt8])
  else if v < (1 : UInt64) <<< 14 then some (out ++ be 2 (v.toUInt16 ||| 0x4000).toNat)
  else if v < (1 : UInt64) <<< 30 then some (out ++ be 4 (v.toUInt32 ||| 0x80000000).toNat)
  else if v < (1 : UInt64) <<< 62 then some (out ++ be 8 (v ||| 0xC000000000000000).toNat)
  else none

def push (v : UInt64) (b : UInt8) : UInt64 := (v <<< 8) ||| b.toUInt64

def decode (buf : Bytes) : Attempt (UInt64 × Nat) := do
  let first ← ofOption buf.head?
  let len := 1 <<< (first >>> 6).toNat
  if buf.length < len then failure
  else
    let rest ← slice buf 1 len
    pure (rest.foldl push (first &&& 0x3f).toUInt64,len)

end Varint
def datagramCapsuleType : UInt64 := 0x00
def maxCapsuleValueLen : UInt64 := 65527 + 8
def contextIdRawUdp : UInt64 := 0

def encodeDatagram (payload : Bytes) : Option Bytes := do
  let out ← Varint.encode datagramCapsuleType []
  let out ← Varint.encode (.ofNat payload.length) out
  some (out ++ payload)

def tooLong : String := "capsule Length exceeds the maximum a legitimate UDP-proxying DATAGRAM capsule can carry"

def decode (buf : Bytes) : Attempt (Except String (UInt64 × Bytes × Nat)) := do
  let (capType,typeLen) ← Varint.decode buf
  let rest ← slice buf typeLen buf.length
  let (len,lenLen) ← Varint.decode rest
  if maxCapsuleValueLen < len then pure (.error tooLong)
  else
    let headerLen ← usize (typeLen + lenLen)
    let total ← usize (headerLen + len.toNat)
    if buf.length < total then failure
    else
      let value ← slice buf headerLen total
      pure (.ok (capType,value,total))

namespace UdpDatagramPayload

def encode (udpPayload : Bytes) : Option Bytes := (Varint.encode contextIdRawUdp []).map (· ++ udpPayload)

def decode (buf : Bytes) : Attempt Bytes := do
  let (contextId,consumed) ← Varint.decode buf
  if contextId ≠ contextIdRawUdp then failure else slice buf consumed buf.length

end UdpDatagramPayload

/- What one chunk sets off: the payloads that are sent on, and the bytes that are kept unless
the stream is torn down. -/
structure Pass where
  forwarded : List Bytes
  inboundBuf : Option Bytes
  deriving DecidableEq

/- The inner loop, for a number of turns. -/
def takeCapsules : Nat → Bytes → Except Panic (Option Pass)
  | 0, _ => .ok none
  | turns + 1, inboundBuf => do
    match ← (decode inboundBuf).run with
    | none => .ok (some ⟨[],some inboundBuf⟩)
    | some (.error _) => .ok (some ⟨[],none⟩)
    | some (.ok (capType,value,consumed)) =>
      let udpPayload ← if capType = 0x00 then (UdpDatagramPayload.decode value).run else .ok none
      if inboundBuf.length < consumed then .error .sliceOutOfRange
      else
        let later ← takeCapsules turns (inboundBuf.drop consumed)
        .ok (later.map (fun pass => ⟨udpPayload.toList ++ pass.forwarded,pass.inboundBuf⟩))

/- One chunk of the stream; after a violation there is no loop any more. -/
def receive (turns : Nat) (s : Pass) (chunk : Bytes) : Except Panic (Option Pass) :=
  match s.inboundBuf with
  | none => .ok (some s)
  | some inboundBuf => do
    let pass ← takeCapsules turns (inboundBuf ++ chunk)
    .ok (pass.map (fun pass => ⟨s.forwarded ++ pass.forwarded,pass.inboundBuf⟩))

def received (turns : Nat) : List Bytes → Pass → Except Panic (Option Pass)
  | [], s => .ok (some s)
  | chunk :: later, s => do
    match ← receive turns s chunk with
    | none => .ok none
    | some s => received turns later s

/- What the decoders read, where nothing is out of range. -/
def Varint.read : Bytes → Option (UInt64 × Nat)
  | [] => none
  | first :: rest =>
    let len := 1 <<< (first >>> 6).toNat
    if rest.length + 1 < len then none
    else some ((rest.take (len - 1)).foldl push (first &&& 0x3f).toUInt64,len)

def read (buf : Bytes) : Option (Except String (UInt64 × Bytes × Nat)) := do
  let (capType,typeLen) ← Varint.read buf
  let (len,lenLen) ← Varint.read (buf.drop typeLen)
  if maxCapsuleValueLen < len then some (.error tooLong)
  else if buf.length < typeLen + lenLen + len.toNat then none
  else some (.ok (capType,piece buf (typeLen + lenLen) (typeLen + lenLen + len.toNat),typeLen + lenLen + len.toNat))

def UdpDatagramPayload.read (buf : Bytes) : Option Bytes := do
  let (contextId,consumed) ← Varint.read buf
  if contextId ≠ contextIdRawUdp then none else some (buf.drop consumed)

def next (buf : Bytes) : Verdict (Option Bytes) :=
  match read buf with
  | none => .waits
  | some (.error _) => .refuses
  | some (.ok (capType,value,consumed)) => .takes (if capType = 0x00 then UdpDatagramPayload.read value else none) consumed

section Integers

theorem readLeSnoc (raw : Bytes) (b : UInt8) : readLE (raw ++ [b]) = readLE raw + 256 ^ raw.length * b.toNat := by
  induction raw with
  | nil => simp [readLE]
  | cons a raw ih =>
    rw [List.cons_append, readLE, ih, readLE, List.length_cons, Nat.pow_succ']
    ring

theorem readBeCons (b : UInt8) (raw : Bytes) : readBE (b :: raw) = b.toNat * 256 ^ raw.length + readBE raw := by
  rw [readBE, List.reverse_cons, readLeSnoc, List.length_reverse, readBE]
  ring

theorem leSnoc (width value : Nat) : le (width + 1) value = le width value ++ [.ofNat (value / 256 ^ width)] := by
  induction width generalizing value with
  | zero => simp [le]
  | succ width ih => rw [le, ih, le, Nat.div_div_eq_div_mul, Nat.pow_succ' (n := width)]; rfl

theorem beCons (width value : Nat) : be (width + 1) value = .ofNat (value / 256 ^ width) :: be width value := by
  rw [be, leSnoc, List.reverse_append]
  rfl

theorem shiftIn {v : UInt64} (room : v.toNat < 2 ^ 56) (b : UInt8) : (Varint.push v b).toNat = v.toNat * 256 + b.toNat := by
  have small : b.toNat < 2 ^ 8 := b.toNat_lt
  have fits : v.toNat <<< 8 < 2 ^ 64 := by rw [Nat.shiftLeft_eq]; omega
  rw [Varint.push, UInt64.toNat_or, UInt64.toNat_shiftLeft, UInt8.toNat_toUInt64]
  have shift : (8 : UInt64).toNat % 64 = 8 := rfl
  rw [shift, Nat.mod_eq_of_lt fits, ← Nat.shiftLeft_add_eq_or_of_lt small, Nat.shiftLeft_eq]

theorem foldValue (raw : Bytes) {v : UInt64} (room : (v.toNat + 1) * 256 ^ raw.length ≤ 2 ^ 64) :
    (raw.foldl Varint.push v).toNat = v.toNat * 256 ^ raw.length + readBE raw := by
  induction raw generalizing v with
  | nil => simp [readBE, readLE]
  | cons b raw ih =>
    rw [List.length_cons, Nat.pow_succ'] at room
    have small : b.toNat < 256 := b.toNat_lt
    have power : 0 < 256 ^ raw.length := Nat.pow_pos (by decide)
    have top : v.toNat < 2 ^ 56 := by nlinarith
    have step := shiftIn top b
    rw [List.foldl_cons, ih (by rw [step]; nlinarith), step, readBeCons, List.length_cons, Nat.pow_succ']
    ring

/- A number, spelled in one of the four lengths. -/
def Spells (v : UInt64) (raw : Bytes) : Prop := Varint.read raw = some (v,raw.length)

theorem topBits (b : UInt8) : (b >>> 6).toNat = b.toNat / 64 := by
  rw [UInt8.toNat_shiftRight, Nat.shiftRight_eq_div_pow]
  rfl

theorem lowBits (b : UInt8) : (b &&& 0x3f).toNat = b.toNat % 64 := by
  rw [UInt8.toNat_and]
  exact Nat.and_two_pow_sub_one_eq_mod b.toNat 6

theorem spelled {v : UInt64} {k width : Nat} (size : width + 1 = 2 ^ k) (short : k < 4) (fits : v.toNat < 64 * 256 ^ width) :
    Spells v (be (width + 1) (v.toNat + k * (64 * 256 ^ width))) := by
  have power : 0 < 256 ^ width := Nat.pow_pos (by decide)
  have high : (v.toNat + k * (64 * 256 ^ width)) / 256 ^ width = v.toNat / 256 ^ width + 64 * k := by
    rw [show k * (64 * 256 ^ width) = 256 ^ width * (64 * k) by ring, Nat.add_mul_div_left _ _ power]
  have top : v.toNat / 256 ^ width < 64 := Nat.div_lt_of_lt_mul (by rw [Nat.mul_comm]; exact fits)
  have each : ∀ q < 64, (q + 64 * k) / 64 = k ∧ (q + 64 * k) % 64 = q ∧ q + 64 * k < 256 := by
    intro q _
    omega
  obtain ⟨kind,mask,byte⟩ := each _ top
  have low : (v.toNat + k * (64 * 256 ^ width)) % 256 ^ width = v.toNat % 256 ^ width := by
    rw [show k * (64 * 256 ^ width) = 256 ^ width * (64 * k) by ring, Nat.add_mul_mod_self_left]
  have first : (UInt8.ofNat (v.toNat / 256 ^ width + 64 * k)).toNat = v.toNat / 256 ^ width + 64 * k := by
    rw [UInt8.toNat_ofNat', Nat.mod_eq_of_lt byte]
  have len : 1 <<< (UInt8.ofNat (v.toNat / 256 ^ width + 64 * k) >>> 6).toNat = width + 1 := by
    rw [topBits, first, kind, Nat.shiftLeft_eq, Nat.one_mul, size]
  rw [Spells, beCons, high, Varint.read]
  rw [len, List.length_cons, beLength, if_neg (Nat.lt_irrefl _), Nat.add_sub_cancel, List.take_of_length_le (Nat.le_of_eq (beLength _ _))]
  refine congrArg some (Prod.ext (UInt64.toNat_inj.mp ?_) rfl)
  have start : (UInt8.ofNat (v.toNat / 256 ^ width + 64 * k) &&& 0x3f).toUInt64.toNat = v.toNat / 256 ^ width := by
    rw [UInt8.toNat_toUInt64, lowBits, first, mask]
  have room : (v.toNat / 256 ^ width + 1) * 256 ^ width ≤ 2 ^ 64 := by
    have wide : width ≤ 7 := by interval_cases k <;> omega
    have bound : 256 ^ width ≤ 256 ^ 7 := Nat.pow_le_pow_right (by decide) wide
    nlinarith
  rw [foldValue _ (by rw [start, beLength]; exact room), start, beLength]
  have rest : readBE (be width (v.toNat + k * (64 * 256 ^ width))) = v.toNat % 256 ^ width := by
    rw [readBE, be, List.reverse_reverse, readLeMod, low]
  rw [rest, Nat.div_add_mod']

theorem below {v c : UInt64} {n : Nat} (bound : c.toNat = 2 ^ n) : v < c ↔ v.toNat < 2 ^ n := by
  rw [UInt64.lt_iff_toNat_lt, bound]

theorem tagged {n i : Nat} (k : Nat) (fits : n < 2 ^ i) : n ||| 2 ^ i * k = n + 2 ^ i * k := by
  rw [Nat.or_comm, ← Nat.two_pow_add_eq_or_of_lt fits, Nat.add_comm]

/- The writer's own spelling, the shortest. -/
theorem encodeSpells {v : UInt64} (small : v.toNat < 2 ^ 62) (out : Bytes) : ∃ raw, Varint.encode v out = some (out ++ raw) ∧ Spells v raw := by
  unfold Varint.encode
  by_cases one : v.toNat < 2 ^ 6
  · rw [if_pos ((@below v ((1 : UInt64) <<< 6) 6 (by decide)).mpr one)]
    exact ⟨_,rfl,@spelled v 0 0 rfl (by decide) one⟩
  rw [if_neg (mt (@below v ((1 : UInt64) <<< 6) 6 (by decide)).mp one)]
  by_cases two : v.toNat < 2 ^ 14
  · rw [if_pos ((@below v ((1 : UInt64) <<< 14) 14 (by decide)).mpr two)]
    have value : (v.toUInt16 ||| 0x4000).toNat = v.toNat + 1 * (64 * 256 ^ 1) := by
      rw [UInt16.toNat_or, UInt64.toNat_toUInt16, Nat.mod_eq_of_lt (by omega)]
      exact tagged 1 two
    rw [value]
    exact ⟨_,rfl,@spelled v 1 1 rfl (by decide) two⟩
  rw [if_neg (mt (@below v ((1 : UInt64) <<< 14) 14 (by decide)).mp two)]
  by_cases four : v.toNat < 2 ^ 30
  · rw [if_pos ((@below v ((1 : UInt64) <<< 30) 30 (by decide)).mpr four)]
    have value : (v.toUInt32 ||| 0x80000000).toNat = v.toNat + 2 * (64 * 256 ^ 3) := by
      rw [UInt32.toNat_or, UInt64.toNat_toUInt32, Nat.mod_eq_of_lt (by omega)]
      exact tagged 2 four
    rw [value]
    exact ⟨_,rfl,@spelled v 2 3 rfl (by decide) four⟩
  rw [if_neg (mt (@below v ((1 : UInt64) <<< 30) 30 (by decide)).mp four), if_pos ((@below v ((1 : UInt64) <<< 62) 62 (by decide)).mpr small)]
  have value : (v ||| 0xC000000000000000).toNat = v.toNat + 3 * (64 * 256 ^ 7) := by
    rw [UInt64.toNat_or]
    exact tagged 3 small
  rw [value]
  exact ⟨_,rfl,@spelled v 3 7 rfl (by decide) small⟩

theorem widths (b : UInt8) : 0 < 1 <<< (b >>> 6).toNat ∧ 1 <<< (b >>> 6).toNat ≤ 8 := by
  have top : (b >>> 6).toNat < 4 := by
    rw [topBits]
    have small : b.toNat < 256 := b.toNat_lt
    omega
  interval_cases (b >>> 6).toNat <;> decide

theorem readWithin {buf : Bytes} {v : UInt64} {n : Nat} (reads : Varint.read buf = some (v,n)) : 0 < n ∧ n ≤ 8 ∧ n ≤ buf.length := by
  cases buf with
  | nil => contradiction
  | cons first rest =>
    rw [Varint.read] at reads
    split at reads <;> try contradiction
    rename_i enough
    cases Option.some.inj reads
    have sizes := widths first
    rw [List.length_cons]
    omega

theorem readMore {buf : Bytes} {r : UInt64 × Nat} (reads : Varint.read buf = some r) (more : Bytes) : Varint.read (buf ++ more) = some r := by
  cases buf with
  | nil => contradiction
  | cons first rest =>
    rw [Varint.read] at reads
    split at reads <;> try contradiction
    rename_i enough
    have sizes := widths first
    rw [List.cons_append, Varint.read]
    rw [if_neg (by rw [List.length_append]; omega), List.take_append_of_le_length (by omega)]
    exact reads

theorem unreadShort {buf : Bytes} (unread : Varint.read buf = none) : buf.length < 8 := by
  cases buf with
  | nil => decide
  | cons first rest =>
    rw [Varint.read] at unread
    split at unread <;> try contradiction
    have sizes := widths first
    rw [List.length_cons]
    omega

end Integers
section Decoding
variable {buf : Bytes}

/- No index is out of range: the decoders compute what they read. -/
theorem varintRun (buf : Bytes) : (Varint.decode buf).run = .ok (Varint.read buf) := by
  cases buf with
  | nil => rfl
  | cons first rest =>
    have sizes := widths first
    rw [Varint.decode, List.head?_cons]
    refine (runBind (a := first) rfl _).trans ?_
    rw [Varint.read]
    dsimp only
    rw [List.length_cons]
    split
    case isTrue => rfl
    case isFalse enough =>
      rw [slice, if_pos ⟨sizes.1,by rw [List.length_cons]; omega⟩]
      rfl

theorem runNone {α β : Type} {x : Attempt α} (run : x.run = .ok none) (f : α → Attempt β) : (x >>= f).run = .ok none := by
  rw [OptionT.run_bind, run]
  rfl

theorem sliceRun {raw : Bytes} {lo hi : Nat} (order : lo ≤ hi) (inside : hi ≤ raw.length) : (slice raw lo hi).run = .ok (some (piece raw lo hi)) := by
  rw [slice, if_pos ⟨order,inside⟩]
  rfl

theorem restRun {raw : Bytes} {lo : Nat} (inside : lo ≤ raw.length) : (slice raw lo raw.length).run = .ok (some (raw.drop lo)) := by
  rw [sliceRun inside (Nat.le_refl _), piece, List.take_of_length_le (by rw [List.length_drop])]

theorem usizeRun {n : Nat} (bound : n < 2 ^ 64) : (usize n).run = .ok (some n) := by
  rw [usize, if_pos bound]
  rfl

theorem payloadRun (buf : Bytes) : (UdpDatagramPayload.decode buf).run = .ok (UdpDatagramPayload.read buf) := by
  rw [UdpDatagramPayload.decode, UdpDatagramPayload.read]
  cases reads : Varint.read buf with
  | none => exact runNone ((varintRun buf).trans (congrArg _ reads)) _
  | some id =>
    obtain ⟨contextId,consumed⟩ := id
    refine (runBind ((varintRun buf).trans (congrArg _ reads)) _).trans ?_
    dsimp only
    rw [Option.bind_eq_bind, Option.bind_some]
    dsimp only
    split
    case isTrue => rfl
    case isFalse => exact restRun (readWithin reads).2.2

theorem shortLength {len : UInt64} (short : ¬maxCapsuleValueLen < len) : len.toNat ≤ 65535 := by
  rw [UInt64.lt_iff_toNat_lt, Nat.not_lt] at short
  exact short

theorem decodeRun (buf : Bytes) : (decode buf).run = .ok (read buf) := by
  rw [decode, read]
  cases types : Varint.read buf with
  | none => exact runNone ((varintRun buf).trans (congrArg _ types)) _
  | some type =>
    obtain ⟨capType,typeLen⟩ := type
    have first := readWithin types
    refine (runBind ((varintRun buf).trans (congrArg _ types)) _).trans ((runBind (restRun first.2.2) _).trans ?_)
    rw [Option.bind_eq_bind, Option.bind_some]
    dsimp only
    cases lengths : Varint.read (buf.drop typeLen) with
    | none => exact runNone ((varintRun _).trans (congrArg _ lengths)) _
    | some length =>
      obtain ⟨len,lenLen⟩ := length
      have second := readWithin lengths
      refine (runBind ((varintRun _).trans (congrArg _ lengths)) _).trans ?_
      rw [Option.bind_some]
      dsimp only
      split
      case isTrue => rfl
      case isFalse short =>
        have bound := shortLength short
        refine (runBind (usizeRun (by omega)) _).trans ((runBind (usizeRun (by omega)) _).trans ?_)
        split
        case isTrue => rfl
        case isFalse enough => exact (runBind (sliceRun (by omega) (by omega)) _).trans rfl

theorem readOpened {capType len : UInt64} {typeLen lenLen : Nat} (types : Varint.read buf = some (capType,typeLen))
    (lengths : Varint.read (buf.drop typeLen) = some (len,lenLen)) :
    read buf =
      if maxCapsuleValueLen < len then some (.error tooLong)
      else if buf.length < typeLen + lenLen + len.toNat then none
      else some (.ok (capType,piece buf (typeLen + lenLen) (typeLen + lenLen + len.toNat),typeLen + lenLen + len.toNat)) := by
  rw [read, types, Option.bind_eq_bind, Option.bind_some]
  dsimp only
  rw [lengths, Option.bind_some]

/- A capsule whose two numbers are there. -/
theorem readParts {r : Except String (UInt64 × Bytes × Nat)} (reads : read buf = some r) :
    ∃ capType typeLen len lenLen, Varint.read buf = some (capType,typeLen) ∧ Varint.read (buf.drop typeLen) = some (len,lenLen) := by
  obtain ⟨⟨capType,typeLen⟩,types,reads⟩ := Option.bind_eq_some_iff.mp reads
  obtain ⟨⟨len,lenLen⟩,lengths,-⟩ := Option.bind_eq_some_iff.mp reads
  exact ⟨capType,typeLen,len,lenLen,types,lengths⟩

theorem readStays {r : Except String (UInt64 × Bytes × Nat)} (reads : read buf = some r) (more : Bytes) : read (buf ++ more) = some r := by
  obtain ⟨capType,typeLen,len,lenLen,types,lengths⟩ := readParts reads
  have first := readWithin types
  have second := readWithin lengths
  rw [List.length_drop] at second
  have later : Varint.read ((buf ++ more).drop typeLen) = some (len,lenLen) := by
    rw [List.drop_append_of_le_length first.2.2]
    exact readMore lengths more
  rw [readOpened types lengths] at reads
  rw [readOpened (readMore types more) later]
  split at reads
  case isTrue long => rw [if_pos long, reads]
  case isFalse short =>
    rw [if_neg short]
    split at reads <;> try contradiction
    rename_i enough
    have piecewise : piece (buf ++ more) (typeLen + lenLen) (typeLen + lenLen + len.toNat) =
        piece buf (typeLen + lenLen) (typeLen + lenLen + len.toNat) := by
      rw [piece, piece, List.drop_append_of_le_length (by omega), List.take_append_of_le_length (by rw [List.length_drop]; omega)]
    rw [if_neg (by rw [List.length_append]; omega), piecewise, reads]

theorem readConsumes {capType : UInt64} {value : Bytes} {consumed : Nat} (reads : read buf = some (.ok (capType,value,consumed))) :
    0 < consumed ∧ consumed ≤ buf.length := by
  obtain ⟨_,typeLen,len,lenLen,types,lengths⟩ := readParts reads
  have first := readWithin types
  rw [readOpened types lengths] at reads
  split at reads
  case isTrue => cases reads
  case isFalse =>
    split at reads <;> try contradiction
    rename_i enough
    cases reads
    omega

/- What is waited with is short. -/
theorem readWaits (waits : read buf = none) : buf.length < 16 + maxCapsuleValueLen.toNat := by
  have most : maxCapsuleValueLen.toNat = 65535 := rfl
  cases types : Varint.read buf with
  | none =>
    have short := unreadShort types
    omega
  | some type =>
    obtain ⟨capType,typeLen⟩ := type
    have first := readWithin types
    cases lengths : Varint.read (buf.drop typeLen) with
    | none =>
      have short := unreadShort lengths
      rw [List.length_drop] at short
      omega
    | some length =>
      obtain ⟨len,lenLen⟩ := length
      have second := readWithin lengths
      rw [readOpened types lengths] at waits
      split at waits <;> try contradiction
      rename_i small
      have bound := shortLength small
      split at waits <;> try contradiction
      omega

theorem nextStable : Stable next where
  idle := rfl
  consumes := by
    intro buf out n takes
    unfold next at takes
    split at takes <;> try contradiction
    rename_i reads
    cases takes
    exact readConsumes reads
  taken := by
    intro buf out n more takes
    unfold next at takes ⊢
    split at takes <;> try contradiction
    rename_i reads
    rw [readStays reads more]
    exact takes
  refused := by
    intro buf more refuses
    unfold next at refuses ⊢
    split at refuses <;> try contradiction
    rename_i reads
    rw [readStays reads more]

end Decoding
section Loops

/- What the decoder library says of the stream, as the loop keeps it. -/
def Pass.of (progress : Progress UInt8 (Option Bytes)) : Pass := ⟨progress.1.filterMap id,progress.2⟩

theorem takesCapsules {turns : Nat} {buf : Bytes} (enough : buf.length < turns) :
    takeCapsules turns buf = .ok (some (.of (drained next buf))) := by
  induction turns generalizing buf with
  | zero => exact absurd enough (Nat.not_lt_zero _)
  | succ turns ih =>
    rw [takeCapsules, decodeRun, drainedNext nextStable]
    cases reads : read buf with
    | none => simp only [next, reads]; rfl
    | some r =>
      rcases r with e | ⟨capType,value,consumed⟩
      · simp only [next, reads]; rfl
      · have sizes := readConsumes reads
        have later := @ih (buf.drop consumed) (by rw [List.length_drop]; omega)
        have rest : ∀ sent : Option Bytes, (if buf.length < consumed then .error .sliceOutOfRange
            else do
              let later ← takeCapsules turns (buf.drop consumed)
              .ok (later.map (fun pass => ⟨sent.toList ++ pass.forwarded,pass.inboundBuf⟩)) : Except Panic (Option Pass)) =
            .ok (some (.of (sent :: (drained next (buf.drop consumed)).1,(drained next (buf.drop consumed)).2))) := by
          intro sent
          rw [if_neg (by omega), later]
          cases sent <;> rfl
        simp only [next, reads]
        change (if capType = 0 then _ else _) = _
        split
        · rw [payloadRun]
          exact rest _
        · exact rest none

theorem passFed (s : Progress UInt8 (Option Bytes)) (chunk : Bytes) {turns : Nat} (enough : ∀ kept ∈ s.2, kept.length + chunk.length < turns) :
    receive turns (.of s) chunk = .ok (some (.of (feed next s chunk))) := by
  obtain ⟨outs,_ | kept⟩ := s
  · rfl
  · have room := enough kept rfl
    have taken : takeCapsules turns (kept ++ chunk) = _ := takesCapsules (by rw [List.length_append]; exact room)
    change (do
      let pass ← takeCapsules turns (kept ++ chunk)
      .ok (pass.map (fun pass => ⟨outs.filterMap id ++ pass.forwarded,pass.inboundBuf⟩)) : Except Panic (Option Pass)) = _
    rw [taken, feed]
    refine congrArg (fun pass => Except.ok (some pass)) ?_
    rw [Pass.of, Pass.of, List.filterMap_append]

/- Enough turns for the whole stream are enough for every chunk. -/
theorem receivedFed {turns : Nat} (before later : List Bytes) (enough : (before ++ later).flatten.length < turns) :
    received turns later (.of (drained next before.flatten)) = .ok (some (.of (drained next (before ++ later).flatten))) := by
  induction later generalizing before with
  | nil => rw [received, List.append_nil]
  | cons chunk later ih =>
    have whole : before ++ chunk :: later = (before ++ [chunk]) ++ later := by rw [List.append_assoc]; rfl
    have fed : feed next (drained next before.flatten) chunk = drained next (before ++ [chunk]).flatten := by
      rw [← drainedAppend nextStable, List.flatten_append, List.flatten_singleton]
    have room : ∀ kept ∈ (drained next before.flatten).2, kept.length + chunk.length < turns := by
      intro kept mem
      have shorter := (drainedKept nextStable mem).2.length_le
      rw [List.flatten_append, List.length_append, List.flatten_cons, List.length_append] at enough
      omega
    rw [received, passFed _ chunk room, fed]
    rw [whole] at enough ⊢
    exact ih (before ++ [chunk]) enough

end Loops
inductive Capsule where
  | datagram (udpPayload : Bytes)
  | context (contextId : UInt64) (body : Bytes)
  | other (capType : UInt64) (value : Bytes)

def Capsule.forwards : Capsule → Option Bytes
  | .datagram udpPayload => some udpPayload
  | _ => none

/- On the wire, with any spelling of the numbers. -/
inductive Capsule.Encodes : Capsule → Bytes → Prop where
  | datagram {udpPayload type length context : Bytes} (typed : Spells datagramCapsuleType type) (raw : Spells contextIdRawUdp context)
      (bound : udpPayload.length ≤ 65527) (sized : Spells (.ofNat (context ++ udpPayload).length) length) :
      Encodes (.datagram udpPayload) (type ++ length ++ (context ++ udpPayload))
  | context {contextId : UInt64} {body type length context : Bytes} (typed : Spells datagramCapsuleType type) (named : Spells contextId context)
      (other : contextId ≠ contextIdRawUdp) (bound : (context ++ body).length ≤ maxCapsuleValueLen.toNat)
      (sized : Spells (.ofNat (context ++ body).length) length) : Encodes (.context contextId body) (type ++ length ++ (context ++ body))
  | other {capType : UInt64} {value type length : Bytes} (typed : Spells capType type) (other : capType ≠ datagramCapsuleType)
      (bound : value.length ≤ maxCapsuleValueLen.toNat) (sized : Spells (.ofNat value.length) length) :
      Encodes (.other capType value) (type ++ length ++ value)

section Capsules

theorem readWhole {capType : UInt64} {type length value : Bytes} (typed : Spells capType type) (sized : Spells (.ofNat value.length) length)
    (bound : value.length ≤ maxCapsuleValueLen.toNat) :
    read (type ++ length ++ value) = some (.ok (capType,value,(type ++ length ++ value).length)) := by
  have most : maxCapsuleValueLen.toNat = 65535 := rfl
  have count : (UInt64.ofNat value.length).toNat = value.length := by rw [UInt64.toNat_ofNat', Nat.mod_eq_of_lt (by omega)]
  have types := readMore typed (length ++ value)
  have rest : (type ++ length ++ value).drop type.length = length ++ value := by rw [List.append_assoc, List.drop_left]
  have lengths := readMore sized value
  rw [← rest] at lengths
  rw [← List.append_assoc] at types
  rw [readOpened types lengths, if_neg, if_neg, count]
  · have total : type.length + length.length + value.length = (type ++ length ++ value).length := by
      rw [List.length_append, List.length_append]
    have whole : piece (type ++ length ++ value) (type.length + length.length) (type.length + length.length + value.length) = value := by
      rw [piece, ← List.length_append, List.drop_left, Nat.add_sub_cancel_left, List.take_length]
    rw [whole, total]
  · rw [count, List.length_append, List.length_append]
    omega
  · rw [UInt64.lt_iff_toNat_lt, count]
    omega

theorem nextWhole {capType : UInt64} {type length value : Bytes} (typed : Spells capType type) (sized : Spells (.ofNat value.length) length)
    (bound : value.length ≤ maxCapsuleValueLen.toNat) :
    next (type ++ length ++ value) =
      .takes (if capType = 0x00 then UdpDatagramPayload.read value else none) (type ++ length ++ value).length := by
  rw [next, readWhole typed sized bound]

theorem payloadWhole {contextId : UInt64} {context body : Bytes} (named : Spells contextId context) :
    UdpDatagramPayload.read (context ++ body) = if contextId ≠ contextIdRawUdp then none else some body := by
  rw [UdpDatagramPayload.read, readMore named body, Option.bind_eq_bind, Option.bind_some]
  dsimp only
  rw [List.drop_left]

theorem encodedTakes {capsule : Capsule} {raw : Bytes} (encodes : capsule.Encodes raw) : next raw = .takes capsule.forwards raw.length := by
  cases encodes with
  | datagram typed zero bound sized =>
    have small := (readWithin zero).2.1
    have most : maxCapsuleValueLen.toNat = 65535 := rfl
    rw [nextWhole typed sized (by rw [List.length_append]; omega), payloadWhole zero]
    rfl
  | context typed named other bound sized =>
    rw [nextWhole typed sized bound, payloadWhole named, if_pos other, ite_self]
    rfl
  | @other capType value type length typed other bound sized =>
    have elsewhere : ¬capType = 0x00 := other
    rw [nextWhole typed sized bound, if_neg elsewhere]
    rfl

/- The proxy's own encoding is one of them. -/
theorem encodedDatagram {udpPayload : Bytes} (bound : udpPayload.length ≤ 65527) :
    ∃ value raw, UdpDatagramPayload.encode udpPayload = some value ∧ encodeDatagram value = some raw ∧
      (Capsule.datagram udpPayload).Encodes raw := by
  obtain ⟨context,written,zero⟩ := @encodeSpells contextIdRawUdp (by decide) []
  obtain ⟨type,typed,datagram⟩ := @encodeSpells datagramCapsuleType (by decide) []
  have small := (readWithin zero).2.1
  have count : (UInt64.ofNat (context ++ udpPayload).length).toNat < 2 ^ 62 := by
    rw [UInt64.toNat_ofNat', List.length_append, Nat.mod_eq_of_lt (by omega)]
    omega
  obtain ⟨length,sized,lengths⟩ := encodeSpells count type
  refine ⟨context ++ udpPayload,type ++ length ++ (context ++ udpPayload),?_,?_,.datagram datagram zero bound lengths⟩
  · rw [UdpDatagramPayload.encode, written]
    rfl
  · rw [encodeDatagram, typed, Option.bind_eq_bind, Option.bind_some, List.nil_append, sized]
    rfl

end Capsules
/- The loop on the stream of any capsules, cut anywhere, and on any bytes at all. -/
theorem capsuleStream :
    (∀ (capsules : List Capsule) (raws chunks : List Bytes) (turns : Nat), List.Forall₂ Capsule.Encodes capsules raws →
      chunks.flatten = raws.flatten → raws.flatten.length < turns →
      received turns chunks ⟨[],some []⟩ = .ok (some ⟨capsules.filterMap Capsule.forwards,some []⟩)) ∧
    (∀ udpPayload : Bytes, udpPayload.length ≤ 65527 →
      ∃ value raw, UdpDatagramPayload.encode udpPayload = some value ∧ encodeDatagram value = some raw ∧
        (Capsule.datagram udpPayload).Encodes raw) ∧
    (∀ buf, ∃ r, (decode buf).run = .ok r) ∧
    (∀ buf more taken, (decode buf).run = .ok (some (.ok taken)) → (decode (buf ++ more)).run = .ok (some (.ok taken))) ∧
    (∀ buf, ∃ pass, ∀ turns, buf.length < turns → takeCapsules turns buf = .ok (some pass)) ∧
    ∀ (chunks : List Bytes) (turns : Nat), chunks.flatten.length < turns →
      ∃ pass, received turns chunks ⟨[],some []⟩ = .ok (some pass) ∧ ∀ kept ∈ pass.inboundBuf, kept.length < 16 + maxCapsuleValueLen.toNat := by
  have fed : ∀ (chunks : List Bytes) (turns : Nat), chunks.flatten.length < turns →
      received turns chunks ⟨[],some []⟩ = .ok (some (.of (drained next chunks.flatten))) :=
    fun chunks turns enough => receivedFed [] chunks enough
  refine ⟨?_,fun _ => encodedDatagram,fun buf => ⟨_,decodeRun buf⟩,?_,fun buf => ⟨_,fun _ => takesCapsules⟩,?_⟩
  · intro capsules raws chunks turns encoded cut enough
    have takes : List.Forall₂ (fun out raw => next raw = .takes out raw.length) (capsules.map Capsule.forwards) raws :=
      List.forall₂_map_left_iff.mpr (encoded.imp (fun _ _ => encodedTakes))
    rw [fed chunks turns (by rw [cut]; exact enough), cut, drainedItems nextStable takes, Pass.of, List.filterMap_map]
    rfl
  · intro buf more taken reads
    rw [decodeRun] at reads ⊢
    exact congrArg Except.ok (readStays (Except.ok.inj reads) more)
  · intro chunks turns enough
    refine ⟨_,fed chunks turns enough,?_⟩
    intro kept mem
    refine readWaits ?_
    have waits := (drainedKept nextStable mem).1
    unfold next at waits
    split at waits <;> try contradiction
    assumption

end CadsTunnel.Capsules
