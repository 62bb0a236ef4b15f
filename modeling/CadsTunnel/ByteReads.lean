import CadsTunnel.Words

/-! Reading bytes at positions. An answer that there is nothing there is one thing, an index
past the end, which stops the program, another: `Inside` says that it does not come to that. -/
namespace CadsTunnel.ByteReads
open Words

inductive Read (α : Type) where
  | outside
  | absent
  | found (value : α)
deriving DecidableEq

namespace Read
variable {α β : Type}

def bind : Read α → (α → Read β) → Read β
  | outside, _ => outside
  | absent, _ => absent
  | found value, next => next value

instance : Monad Read where
  pure := found
  bind := bind

def ofOption : Option α → Read α
  | none => absent
  | some value => found value

/- `unwrap_or`. -/
def getD : Read α → α → Read α
  | outside, _ => outside
  | absent, value => found value
  | found value, _ => found value

/- The answer as a value, where the program goes on either way. -/
def optional : Read α → Read (Option α)
  | outside => outside
  | absent => found none
  | found value => found (some value)

def Inside (read : Read α) : Prop := read ≠ outside

@[simp] theorem bindFound (value : α) (next : α → Read β) : (found value >>= next) = next value := rfl
@[simp] theorem bindAbsent (next : α → Read β) : (absent >>= next) = absent := rfl
@[simp] theorem pureFound (value : α) : (pure value : Read α) = found value := rfl

theorem bindEq {read : Read α} {next : α → Read β} {value : β} :
    (read >>= next) = found value ↔ ∃ first, read = found first ∧ next first = found value := by
  constructor
  · intro same
    cases read with
    | outside => contradiction
    | absent => contradiction
    | found first => exact ⟨first,rfl,same⟩
  · rintro ⟨first,rfl,same⟩
    exact same

theorem bindInside {read : Read α} {next : α → Read β} (first : Inside read) (rest : ∀ value, read = found value → Inside (next value)) :
    Inside (read >>= next) := by
  cases read with
  | outside => exact absurd rfl first
  | absent => intro outside'; contradiction
  | found value => exact rest value rfl

theorem foundInside (value : α) : Inside (found value) := by
  intro outside'
  contradiction

theorem absentInside : Inside (absent : Read α) := by
  intro outside'
  contradiction

theorem optionInside (value : Option α) : Inside (ofOption value) := by
  cases value with
  | none => exact absentInside
  | some value => exact foundInside value

theorem optionalInside {read : Read α} (inside : Inside read) : Inside read.optional := by
  cases read with
  | outside => contradiction
  | absent => exact foundInside none
  | found value => exact foundInside (some value)

theorem getDInside {read : Read α} (inside : Inside read) (value : α) : Inside (read.getD value) := by
  cases read with
  | outside => contradiction
  | absent => exact foundInside value
  | found value => exact foundInside value

theorem optionalFound {read : Read α} (inside : Inside read) : ∃ value, read.optional = found value := by
  cases read with
  | outside => contradiction
  | absent => exact ⟨none,rfl⟩
  | found value => exact ⟨some value,rfl⟩

theorem getDFound {read : Read α} (inside : Inside read) (value : α) : ∃ either, read.getD value = found either := by
  cases read with
  | outside => contradiction
  | absent => exact ⟨value,rfl⟩
  | found other => exact ⟨other,rfl⟩

end Read
open Read

def index (buf : Bytes) (i : Nat) : Read UInt8 :=
  match buf[i]? with
  | some b => found b
  | none => outside

def get (buf : Bytes) (i : Nat) : Read UInt8 := ofOption buf[i]?

/- `buf.get(a..b)`. -/
def slice (buf : Bytes) (a b : Nat) : Read Bytes := if a ≤ b ∧ b ≤ buf.length then found ((buf.drop a).take (b - a)) else absent

def u16BE (v : UInt16) : Bytes := be 2 v.toNat

/- `from_be_bytes` of two bytes, indexed, and looked up. -/
def u16Index (buf : Bytes) (i : Nat) : Read UInt16 := do
  let high ← index buf i
  let low ← index buf (i + 1)
  return .ofNat (readBE [high,low])

def u16Get (buf : Bytes) (i : Nat) : Read UInt16 := do
  let high ← get buf i
  let low ← get buf (i + 1)
  return .ofNat (readBE [high,low])

section Halves

theorem u16Read (v : UInt16) : UInt16.ofNat (readBE (u16BE v)) = v := by
  rw [u16BE, readBeBounded v.toNat_lt, UInt16.ofNat_toNat]

theorem u16Length (v : UInt16) : (u16BE v).length = 2 := beLength 2 v.toNat

theorem beHalf (n : Nat) : be 2 n = u16BE (.ofNat n) := by
  rw [u16BE, UInt16.toNat_ofNat', be, be]
  exact congrArg List.reverse (leMod 2 n).symm

theorem u16Bytes (high low : UInt8) : u16BE (.ofNat (readBE [high,low])) = [high,low] := by
  have bytes : be 2 (readBE [high,low]) = [high,low] := congrArg List.reverse (leRead [low,high])
  have bound : readBE [high,low] < 2 ^ 16 := lt_of_lt_of_eq (readLeLt [low,high]) (by norm_num)
  rw [u16BE, UInt16.toNat_ofNat', Nat.mod_eq_of_lt bound, bytes]

theorem u16Small {n : Nat} (small : n < 2 ^ 16) : (UInt16.ofNat n).toNat = n := by
  rw [UInt16.toNat_ofNat', Nat.mod_eq_of_lt small]

end Halves

section Reads
variable {buf part rest : Bytes} {p : Nat}

theorem indexInside (bound : p < buf.length) : Inside (index buf p) := by
  rw [index, List.getElem?_eq_getElem bound]
  exact foundInside _

theorem getInside (buf : Bytes) (p : Nat) : Inside (get buf p) := optionInside _

theorem sliceInside (buf : Bytes) (a b : Nat) : Inside (slice buf a b) := by
  rw [slice]
  split
  · exact foundInside _
  · exact absentInside

theorem u16IndexInside (bound : p + 1 < buf.length) : Inside (u16Index buf p) :=
  bindInside (indexInside (by omega)) fun _ _ => bindInside (indexInside bound) fun _ _ => foundInside _

theorem u16GetInside (buf : Bytes) (p : Nat) : Inside (u16Get buf p) :=
  bindInside (getInside _ _) fun _ _ => bindInside (getInside _ _) fun _ _ => foundInside _

/- What a read finds where the bytes from a position on are known, and what is behind it. -/
theorem dropNext {b : UInt8} (at' : buf.drop p = b :: rest) : buf[p]? = some b ∧ buf.drop (p + 1) = rest := by
  constructor
  · rw [← List.head?_drop, at', List.head?_cons]
  · rw [← List.drop_drop, at']
    rfl

theorem getFront {b : UInt8} (at' : buf.drop p = b :: rest) : get buf p = found b := by
  rw [get, (dropNext at').1]
  rfl

theorem indexFront {b : UInt8} (at' : buf.drop p = b :: rest) : index buf p = found b := by
  rw [index, (dropNext at').1]

theorem partBehind (at' : buf.drop p = part ++ rest) : buf.drop (p + part.length) = rest := by
  rw [← List.drop_drop, at', List.drop_left]

theorem u16Front {v : UInt16} (at' : buf.drop p = u16BE v ++ rest) :
    u16Get buf p = found v ∧ u16Index buf p = found v ∧ buf.drop (p + 2) = rest := by
  have behind := partBehind at'
  rw [u16Length] at behind
  obtain ⟨high,low,bytes⟩ := List.length_eq_two.mp (u16Length v)
  rw [bytes, List.cons_append, List.cons_append, List.nil_append] at at'
  have next := (dropNext at').2
  have value : UInt16.ofNat (readBE [high,low]) = v := by
    rw [← bytes, u16Read]
  rw [u16Get, u16Index, getFront at', getFront next, indexFront at', indexFront next, ← value]
  exact ⟨rfl,rfl,behind⟩

theorem sliceFront (at' : buf.drop p = part ++ rest) (room : p ≤ buf.length) : slice buf p (p + part.length) = found part := by
  have length := congrArg List.length at'
  rw [List.length_drop, List.length_append] at length
  rw [slice, if_pos ⟨by omega,by omega⟩, at', Nat.add_sub_cancel_left, List.take_left]

theorem sliceParts {a b : Nat} (reads : slice buf a b = found part) :
    a ≤ b ∧ b ≤ buf.length ∧ part.length = b - a ∧ buf.drop a = part ++ buf.drop b := by
  rw [slice] at reads
  split at reads <;> try contradiction
  rename_i range
  cases reads
  refine ⟨range.1,range.2,?_,?_⟩
  · rw [List.length_take, List.length_drop]
    omega
  · have back : b = a + (b - a) := by omega
    have whole := List.take_append_drop (b - a) (buf.drop a)
    rw [List.drop_drop, ← back] at whole
    exact whole.symm

theorem getParts {b : UInt8} (reads : get buf p = found b) : p < buf.length ∧ buf.drop p = b :: buf.drop (p + 1) := by
  rw [get] at reads
  cases byte : buf[p]? with
  | none =>
    rw [byte] at reads
    contradiction
  | some c =>
    rw [byte] at reads
    cases reads
    obtain ⟨bound,same⟩ := List.getElem?_eq_some_iff.mp byte
    exact ⟨bound,by rw [List.drop_eq_getElem_cons bound, same]⟩

theorem indexParts {b : UInt8} (reads : index buf p = found b) : p < buf.length ∧ buf.drop p = b :: buf.drop (p + 1) := by
  rw [index] at reads
  split at reads <;> try contradiction
  rename_i c byte
  cases reads
  obtain ⟨bound,same⟩ := List.getElem?_eq_some_iff.mp byte
  exact ⟨bound,by rw [List.drop_eq_getElem_cons bound, same]⟩

theorem u16IndexParts {v : UInt16} (reads : u16Index buf p = found v) : buf.drop p = u16BE v ++ buf.drop (p + 2) := by
  obtain ⟨high,first,reads⟩ := bindEq.mp reads
  obtain ⟨low,second,same⟩ := bindEq.mp reads
  cases same
  rw [u16Bytes, (indexParts first).2, (indexParts second).2]
  rfl

end Reads
end CadsTunnel.ByteReads
