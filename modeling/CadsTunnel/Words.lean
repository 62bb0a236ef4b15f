import Mathlib

/-! Fixed-width unsigned words: the checked and saturating operations of the
64-bit type, and the byte order of the wire forms. `le` and `be` write the low
`width` bytes of a number, as a width-truncating cast followed by
`to_le_bytes` or `to_be_bytes` does. -/
namespace CadsTunnel.Words

abbrev Bytes := List UInt8

/- `as_bytes` of a string. -/
def asBytes (s : String) : Bytes := s.toByteArray.data.toList

theorem asBytesInjective : Function.Injective asBytes := by
  intro a b same
  exact String.toByteArray_inj.mp (ByteArray.ext (Array.toList_inj.mp same))

def checkedAdd (a b : UInt64) : Option UInt64 := if a.toNat + b.toNat < 2 ^ 64 then some (a + b) else none

def saturatingAdd (a b : UInt64) : UInt64 := (checkedAdd a b).getD (.ofNat (2 ^ 64 - 1))

def saturatingSub (a b : UInt64) : UInt64 := if b ≤ a then a - b else 0

theorem checkedAddSome {a b c} (h : checkedAdd a b = some c) : c.toNat = a.toNat + b.toNat := by
  unfold checkedAdd at h
  split at h <;> try contradiction
  rename_i bound
  cases Option.some.inj h
  rw [UInt64.toNat_add, Nat.mod_eq_of_lt bound]

theorem checkedAddNone {a b} : checkedAdd a b = none ↔ 2 ^ 64 ≤ a.toNat + b.toNat := by
  unfold checkedAdd
  split <;> simp <;> omega

theorem saturatingAddExact {a b} (bound : a.toNat + b.toNat < 2 ^ 64) :
    (saturatingAdd a b).toNat = a.toNat + b.toNat := by
  rw [saturatingAdd, checkedAdd, if_pos bound]
  exact (UInt64.toNat_add a b).trans (Nat.mod_eq_of_lt bound)

theorem saturatingSubExact {a b} (bound : b ≤ a) : (saturatingSub a b).toNat = a.toNat - b.toNat := by
  rw [saturatingSub, if_pos bound]
  exact UInt64.toNat_sub_of_le a b bound

theorem ofNatSucc (n : Nat) : UInt64.ofNat n + 1 = .ofNat (n + 1) := (UInt64.ofNat_add n 1).symm

def le : Nat → Nat → Bytes
  | 0, _ => []
  | width + 1, value => .ofNat value :: le width (value / 256)

def readLE : Bytes → Nat
  | [] => 0
  | b :: rest => b.toNat + 256 * readLE rest

def be (width value : Nat) : Bytes := (le width value).reverse

def readBE (raw : Bytes) : Nat := readLE raw.reverse

theorem leLength (width value : Nat) : (le width value).length = width := by
  induction width generalizing value with
  | zero => rfl
  | succ width ih => simp [le, ih]

theorem readLeMod (width value : Nat) : readLE (le width value) = value % 256 ^ width := by
  induction width generalizing value with
  | zero => simp [le, readLE, Nat.mod_one]
  | succ width ih =>
    change (UInt8.ofNat value).toNat + 256 * readLE (le width (value / 256)) = _
    rw [ih, UInt8.toNat_ofNat', Nat.pow_succ' (n := width) (m := 256), Nat.mod_mul (x := value)]

theorem readLeBounded {width value : Nat} (bound : value < 256 ^ width) : readLE (le width value) = value := by
  rw [readLeMod, Nat.mod_eq_of_lt bound]

theorem leRead (raw : Bytes) : le raw.length (readLE raw) = raw := by
  induction raw with
  | nil => rfl
  | cons b rest ih =>
    have low : UInt8.ofNat (b.toNat + 256 * readLE rest) = b := by
      rw [← UInt8.toNat_inj, UInt8.toNat_ofNat', Nat.add_mul_mod_self_left, Nat.mod_eq_of_lt b.toNat_lt]
    have high : (b.toNat + 256 * readLE rest) / 256 = readLE rest := by
      rw [Nat.add_mul_div_left _ _ (by decide), Nat.div_eq_of_lt b.toNat_lt, Nat.zero_add]
    rw [List.length_cons, readLE, le, low, high, ih]

theorem readLeLt (raw : Bytes) : readLE raw < 256 ^ raw.length := by
  induction raw with
  | nil => exact Nat.one_pos
  | cons b rest ih =>
    have small : b.toNat < 256 := b.toNat_lt
    rw [readLE, List.length_cons, Nat.pow_succ']
    omega

theorem leMod (width value : Nat) : le width (value % 256 ^ width) = le width value := by
  induction width generalizing value with
  | zero => rfl
  | succ width ih =>
    have head : value % 256 ^ (width + 1) % 256 = value % 256 :=
      Nat.mod_mod_of_dvd _ (Nat.dvd_mul_left 256 (256 ^ width))
    have rest : value % 256 ^ (width + 1) / 256 = value / 256 % 256 ^ width := by
      rw [Nat.pow_succ', Nat.mod_mul_right_div_self]
    rw [le, le, rest, ih]
    congr 1
    rw [← UInt8.toNat_inj, UInt8.toNat_ofNat', UInt8.toNat_ofNat']
    exact head

theorem beLength (width value : Nat) : (be width value).length = width := by
  simp [be, leLength]

/- An ASCII string has one byte for each character. -/
theorem asBytesAscii {cs : List Char} (ascii : ∀ c ∈ cs, c.toNat < 128) :
    asBytes (.ofList cs) = cs.map (fun c => c.toNat.toUInt8) := by
  have each : ∀ c ∈ cs, String.utf8EncodeChar c = [c.toNat.toUInt8] := by
    intro c mem
    have one : c.utf8Size = 1 := by
      rw [Char.utf8Size_eq_one_iff, UInt32.le_iff_toNat_le]
      exact Nat.le_of_lt_succ (ascii c mem)
    rw [String.utf8EncodeChar_eq_singleton one]
    rfl
  rw [asBytes, String.toByteArray_ofList, List.utf8Encode, List.data_toByteArray, List.flatMap_congr each, List.map_eq_flatMap]

/- `from_utf8`: the bytes of a string, if they are those of one. -/
def fromUtf8 (raw : Bytes) : Option String := String.fromUTF8? ⟨raw.toArray⟩

theorem fromUtf8Bytes (s : String) : fromUtf8 (asBytes s) = some s := by
  have same : (⟨(asBytes s).toArray⟩ : ByteArray) = s.toByteArray := rfl
  rw [fromUtf8, same, String.fromUTF8?, dif_pos s.isValidUTF8]
  rfl

theorem fromUtf8Some {raw : Bytes} {s : String} (read : fromUtf8 raw = some s) : asBytes s = raw := by
  rw [fromUtf8, String.fromUTF8?] at read
  split at read <;> try contradiction
  cases Option.some.inj read
  rfl

theorem readBeBounded {width value : Nat} (bound : value < 256 ^ width) : readBE (be width value) = value := by
  rw [readBE, be, List.reverse_reverse, readLeBounded bound]

def u32LE (v : UInt32) : Bytes := le 4 v.toNat
def u64LE (v : UInt64) : Bytes := le 8 v.toNat
def u64BE (v : UInt64) : Bytes := be 8 v.toNat

/- `len as u32` keeps the low 32 bits, which is what four little-endian bytes hold anyway. -/
theorem u32LECount (n : Nat) : u32LE (.ofNat n) = le 4 n := by
  rw [u32LE, UInt32.toNat_ofNat']
  exact leMod 4 n

/- `from_le_bytes` of an array. -/
def fromLeBytes {n : Nat} (v : Vector UInt8 n) : Nat := readLE v.toList

theorem leFromLeBytes {n : Nat} (v : Vector UInt8 n) : le n (fromLeBytes v) = v.toList := by
  have read := leRead v.toList
  rwa [v.length_toList] at read

theorem fromLeBytesLt {n : Nat} (v : Vector UInt8 n) : fromLeBytes v < 256 ^ n := by
  have bound := readLeLt v.toList
  rwa [v.length_toList] at bound

def toLeBytes (n value : Nat) : Vector UInt8 n := ⟨(le n value).toArray,by simp [leLength]⟩

theorem toLeBytesList (n value : Nat) : (toLeBytes n value).toList = le n value := by
  simp [toLeBytes]

theorem fromLeToLe {n value : Nat} (bound : value < 256 ^ n) : fromLeBytes (toLeBytes n value) = value := by
  rw [fromLeBytes, toLeBytesList, readLeBounded bound]

theorem u64FromLeToLe (v : UInt64) : UInt64.ofNat (fromLeBytes (toLeBytes 8 v.toNat)) = v := by
  rw [fromLeToLe v.toNat_lt, UInt64.ofNat_toNat]

theorem u64LEFromLeBytes (v : Vector UInt8 8) : u64LE (.ofNat (fromLeBytes v)) = v.toList := by
  rw [u64LE, UInt64.toNat_ofNat_of_lt' (fromLeBytesLt v), leFromLeBytes]

theorem readU64LE (v : UInt64) : UInt64.ofNat (readLE (u64LE v)) = v := by
  rw [u64LE, readLeBounded v.toNat_lt, UInt64.ofNat_toNat]

theorem readU64BE (v : UInt64) : UInt64.ofNat (readBE (u64BE v)) = v := by
  rw [u64BE, readBeBounded v.toNat_lt, UInt64.ofNat_toNat]

end CadsTunnel.Words
