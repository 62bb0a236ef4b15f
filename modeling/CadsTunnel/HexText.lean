import CadsTunnel.Words

/-! Lowercase hex text, read in either case. -/
namespace CadsTunnel.Hex
open Words

def digit (n : UInt8) : Char := n.toNat.digitChar

def encode (bytes : Bytes) : String := .ofList (bytes.flatMap (fun b : UInt8 => [digit (b >>> 4),digit (b &&& 0x0f)]))

def nibble (c : UInt8) : Option UInt8 :=
  if 48 ≤ c ∧ c ≤ 57 then some (c - 48)
  else if 97 ≤ c ∧ c ≤ 102 then some (c - 97 + 10)
  else if 65 ≤ c ∧ c ≤ 70 then some (c - 65 + 10)
  else none

def decodePairs : Bytes → Option Bytes
  | hi :: lo :: rest => do
    let h ← nibble hi
    let l ← nibble lo
    let more ← decodePairs rest
    some ((h <<< 4 ||| l) :: more)
  | _ => some []

def decode (s : String) : Option Bytes :=
  let digits := asBytes s
  if digits.length % 2 ≠ 0 then none else decodePairs digits

def decodeArray (n : Nat) (s : String) : Option (Vector UInt8 n) :=
  if (asBytes s).length ≠ 2 * n then none
  else (decode s).bind (fun bytes => if size : bytes.toArray.size = n then some ⟨bytes.toArray,size⟩ else none)

def decode32 (s : String) : Option (Vector UInt8 32) := decodeArray 32 s

theorem digitAscii (n : UInt8) (small : n < 16) : (digit n).toNat < 128 ∧ nibble (digit n).toNat.toUInt8 = some n := by
  have each : ∀ n < 16, (digit (.ofNat n)).toNat < 128 ∧ nibble (digit (.ofNat n)).toNat.toUInt8 = some (.ofNat n) := by
    decide
  have bound : n.toNat < 16 := UInt8.lt_iff_toNat_lt.mp small
  simpa using each n.toNat bound

theorem highSmall (b : UInt8) : b >>> 4 < 16 := by
  rw [UInt8.lt_iff_toNat_lt]
  have bound := b.toNat_lt
  simp only [UInt8.toNat_shiftRight, Nat.shiftRight_eq_div_pow]
  simp
  omega

theorem lowSmall (b : UInt8) : b &&& 0x0f < 16 := by
  rw [UInt8.lt_iff_toNat_lt, UInt8.toNat_and]
  have mask : (0x0f : UInt8).toNat < 2 ^ 4 := by decide
  exact Nat.and_lt_two_pow b.toNat mask

theorem halvesJoin (b : UInt8) : (b >>> 4) <<< 4 ||| (b &&& 0x0f) = b := by
  apply UInt8.eq_of_toBitVec_eq
  apply BitVec.eq_of_getLsbD_eq
  intro i bound
  interval_cases i <;> simp

theorem pairsAscii (bytes : Bytes) :
    ∀ c ∈ bytes.flatMap (fun b : UInt8 => [digit (b >>> 4),digit (b &&& 0x0f)]), c.toNat < 128 := by
  intro c mem
  obtain ⟨b,_,inside⟩ := List.mem_flatMap.mp mem
  rcases List.mem_cons.mp inside with high | low
  · rw [high]
    exact (digitAscii _ (highSmall b)).1
  · rw [List.mem_singleton.mp low]
    exact (digitAscii _ (lowSmall b)).1

theorem encodeBytes (bytes : Bytes) :
    asBytes (encode bytes) =
      bytes.flatMap (fun b : UInt8 => [(digit (b >>> 4)).toNat.toUInt8,(digit (b &&& 0x0f)).toNat.toUInt8]) := by
  rw [encode, asBytesAscii (pairsAscii bytes), List.map_flatMap]
  rfl

theorem decodePairsEncoded (bytes : Bytes) :
    decodePairs (bytes.flatMap (fun b : UInt8 =>
      [(digit (b >>> 4)).toNat.toUInt8,(digit (b &&& 0x0f)).toNat.toUInt8])) = some bytes := by
  induction bytes with
  | nil => rfl
  | cons b bytes ih =>
    simp only [List.flatMap_cons, List.cons_append, List.nil_append, decodePairs, (digitAscii _ (highSmall b)).2,
      (digitAscii _ (lowSmall b)).2, ih, bind, Option.bind, halvesJoin]

theorem decodeEncode (bytes : Bytes) : decode (encode bytes) = some bytes := by
  have even : (asBytes (encode bytes)).length % 2 = 0 := by
    rw [encodeBytes, List.length_flatMap]
    simp
  rw [decode]
  simp only [even]
  rw [encodeBytes]
  exact decodePairsEncoded bytes

theorem digitLower (n : UInt8) (small : n < 16) : (digit n).toLower = digit n := by
  have each : ∀ n < 16, (digit (.ofNat n)).toLower = digit (.ofNat n) := by decide
  simpa using each n.toNat (UInt8.lt_iff_toNat_lt.mp small)

theorem encodeLower (bytes : Bytes) : ∀ c ∈ (encode bytes).toList, c.toLower = c := by
  intro c mem
  rw [encode, String.toList_ofList] at mem
  obtain ⟨b,_,inside⟩ := List.mem_flatMap.mp mem
  rcases List.mem_cons.mp inside with high | low
  · rw [high, digitLower _ (highSmall b)]
  · rw [List.mem_singleton.mp low, digitLower _ (lowSmall b)]

/- A digit that is no capital letter is the one that is written. -/
theorem nibbleDigit {c n : UInt8} (read : nibble c = some n) (lower : ¬(65 ≤ c ∧ c ≤ 70)) :
    n < 16 ∧ (digit n).toNat.toUInt8 = c := by
  have each : ∀ m < 256, (nibble (.ofNat m)).all (fun n =>
      ((65 : UInt8) ≤ .ofNat m && (.ofNat m : UInt8) ≤ 70) || (n < 16 && (digit n).toNat.toUInt8 == .ofNat m)) := by
    decide +kernel
  have here := each c.toNat c.toNat_lt
  rw [UInt8.ofNat_toNat, read] at here
  simpa [lower] using here

theorem joinHalves {h l : UInt8} (high : h < 16) (low : l < 16) : (h <<< 4 ||| l) >>> 4 = h ∧ (h <<< 4 ||| l) &&& 0x0f = l := by
  have each : ∀ m < 16, ∀ k < 16, (UInt8.ofNat m <<< 4 ||| .ofNat k) >>> 4 = .ofNat m ∧ (UInt8.ofNat m <<< 4 ||| .ofNat k) &&& 0x0f = .ofNat k := by
    decide +kernel
  simpa using each h.toNat (UInt8.lt_iff_toNat_lt.mp high) l.toNat (UInt8.lt_iff_toNat_lt.mp low)

theorem decodedPairs {digits bytes : Bytes} (read : decodePairs digits = some bytes) (even : digits.length % 2 = 0)
    (lower : ∀ c ∈ digits, ¬(65 ≤ c ∧ c ≤ 70)) :
    digits = bytes.flatMap (fun b : UInt8 => [(digit (b >>> 4)).toNat.toUInt8,(digit (b &&& 0x0f)).toNat.toUInt8]) := by
  induction digits using decodePairs.induct generalizing bytes with
  | case1 hi lo rest ih =>
    simp only [decodePairs, bind, Option.bind_eq_some_iff, Option.some.injEq] at read
    obtain ⟨h,high,l,low,more,later,rfl⟩ := read
    obtain ⟨highSmall,highText⟩ := nibbleDigit high (lower hi (by simp))
    obtain ⟨lowSmall,lowText⟩ := nibbleDigit low (lower lo (by simp))
    obtain ⟨upper,bottom⟩ := joinHalves highSmall lowSmall
    have tail := ih later (by simp only [List.length_cons] at even; omega) (fun c mem => lower c (by simp [mem]))
    rw [List.flatMap_cons, upper, bottom, highText, lowText, ← tail]
    rfl
  | case2 digits short =>
    match digits with
    | [] =>
      cases Option.some.inj read
      rfl
    | [_] => simp at even
    | hi :: lo :: rest => exact absurd rfl (short hi lo rest)

/- A byte of the ASCII range is a character of the text. -/
theorem asciiByte {s : String} {b : UInt8} (small : b.toNat < 128) (mem : b ∈ asBytes s) : ∃ c ∈ s.toList, c.toNat = b.toNat := by
  have bytes : asBytes s = s.toList.flatMap String.utf8EncodeChar := by
    conv => lhs; rw [← String.ofList_toList (s := s)]
    rw [asBytes, String.toByteArray_ofList, List.utf8Encode, List.data_toByteArray]
  rw [bytes] at mem
  obtain ⟨c,here,inside⟩ := List.mem_flatMap.mp mem
  refine ⟨c,here,?_⟩
  unfold String.utf8EncodeChar at inside
  dsimp only at inside
  split at inside
  · rw [List.mem_singleton.mp inside, UInt8.toNat_ofNat']
    show c.val.toNat = _
    omega
  · exfalso
    have continued : ∀ n, n < 64 → ¬(UInt8.ofNat (n + 128)).toNat < 128 := by
      intro n bound
      rw [UInt8.toNat_ofNat']
      omega
    split_ifs at inside <;> simp only [List.mem_cons, List.not_mem_nil, or_false] at inside
    · rcases inside with rfl | rfl
      · rw [UInt8.toNat_ofNat'] at small
        omega
      · exact continued _ (by omega) small
    · rcases inside with rfl | rfl | rfl
      · rw [UInt8.toNat_ofNat'] at small
        omega
      · exact continued _ (by omega) small
      · exact continued _ (by omega) small
    · rcases inside with rfl | rfl | rfl | rfl
      · rw [UInt8.toNat_ofNat'] at small
        omega
      · exact continued _ (by omega) small
      · exact continued _ (by omega) small
      · exact continued _ (by omega) small

/- The text of a key has no capitals, and no other text without capitals is read as that key. -/
theorem decodeArrayEncode {n : Nat} (key : Vector UInt8 n) : decodeArray n (encode key.toList) = some key := by
  have digits : (asBytes (encode key.toList)).length = 2 * n := by
    rw [encodeBytes, List.length_flatMap]
    simp
    omega
  have size : key.toList.toArray.size = n := by simp
  rw [decodeArray, if_neg (not_not_intro digits), decodeEncode, Option.bind_some, dif_pos size]
  rfl

theorem encodeDecodeArray {n : Nat} {s : String} {key : Vector UInt8 n} (read : decodeArray n s = some key)
    (lower : ∀ c ∈ s.toList, c.toLower = c) : s = encode key.toList := by
  rw [decodeArray] at read
  split at read <;> try contradiction
  rename_i digits
  obtain ⟨bytes,decoded,sized⟩ := Option.bind_eq_some_iff.mp read
  split at sized <;> try contradiction
  cases Option.some.inj sized
  rw [decode] at decoded
  have even : (asBytes s).length % 2 = 0 := by omega
  rw [if_neg (not_not_intro even)] at decoded
  refine asBytesInjective ?_
  rw [encodeBytes]
  refine decodedPairs decoded even ?_
  intro b mem capital
  obtain ⟨c,here,same⟩ := asciiByte (lt_of_le_of_lt (UInt8.le_iff_toNat_le.mp capital.2) (by decide)) mem
  have low := UInt8.le_iff_toNat_le.mp capital.1
  have high := UInt8.le_iff_toNat_le.mp capital.2
  change 65 ≤ b.toNat at low
  change b.toNat ≤ 70 at high
  have range : c.val ≥ 'A'.val ∧ c.val ≤ 'Z'.val := by
    rw [ge_iff_le, UInt32.le_iff_toNat_le, UInt32.le_iff_toNat_le]
    change 65 ≤ c.toNat ∧ c.toNat ≤ 90
    omega
  have value := congrArg (fun d : Char => d.val.toNat) (lower c here)
  simp only [Char.toLower, range, and_self, dif_pos, UInt32.toNat_add] at value
  change (c.toNat + 32) % 4294967296 = c.toNat at value
  omega
end CadsTunnel.Hex
