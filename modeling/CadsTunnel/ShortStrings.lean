import CadsTunnel.Words

/-! Strings of bytes behind a length of one byte, one after the other, and the pieces into
which longer bytes are cut to be written so. -/
namespace CadsTunnel.ShortStrings
open Words

def write (parts : List Bytes) : Bytes := parts.flatMap fun part => UInt8.ofNat part.length :: part

/- The string in front, and what is behind it. -/
def read : Bytes → Option (Bytes × Bytes)
  | [] => none
  | n :: rest => if rest.length < n.toNat then none else some (rest.take n.toNat,rest.drop n.toNat)

def chunks (n : Nat) (raw : Bytes) : List Bytes :=
  if raw = [] ∨ n = 0 then [] else raw.take n :: chunks n (raw.drop n)
termination_by raw.length
decreasing_by
  rename_i some'
  have length : raw.length ≠ 0 := fun none' => some' (.inl (List.length_eq_zero_iff.mp none'))
  have size : n ≠ 0 := fun none' => some' (.inr none')
  simp only [List.length_drop]
  omega

section Strings

theorem lengthByte {n : Nat} (short : n < 256) : (UInt8.ofNat n).toNat = n := by
  rw [UInt8.toNat_ofNat', Nat.mod_eq_of_lt short]

theorem readWritten {part : Bytes} (short : part.length < 256) (rest : Bytes) :
    read (UInt8.ofNat part.length :: (part ++ rest)) = some (part,rest) := by
  rw [read, lengthByte short, if_neg (by simp), List.take_left, List.drop_left]

theorem readParts {raw part rest : Bytes} (reads : read raw = some (part,rest)) :
    raw = UInt8.ofNat part.length :: (part ++ rest) ∧ part.length < 256 := by
  cases raw with
  | nil => contradiction
  | cons n behind =>
    rw [read] at reads
    split at reads <;> try contradiction
    rename_i enough
    cases Option.some.inj reads
    have length : (behind.take n.toNat).length = n.toNat := by
      rw [List.length_take]
      omega
    rw [length, UInt8.ofNat_toNat, List.take_append_drop]
    exact ⟨rfl,n.toNat_lt⟩

theorem writeCons (part : Bytes) (parts : List Bytes) : write (part :: parts) = UInt8.ofNat part.length :: (part ++ write parts) := by
  rw [write, List.flatMap_cons]
  rfl

theorem readShrinks {raw part rest : Bytes} (reads : read raw = some (part,rest)) : rest.length < raw.length := by
  rw [(readParts reads).1, List.length_cons, List.length_append]
  omega

/- Any bytes start with so many strings, and behind them none can be read. -/
theorem leadingStrings (raw : Bytes) : ∃ parts tail, raw = write parts ++ tail ∧ (∀ part ∈ parts, part.length < 256) ∧ read tail = none := by
  cases reads : read raw with
  | none => exact ⟨[],raw,rfl,by simp,reads⟩
  | some found =>
    obtain ⟨part,rest⟩ := found
    obtain ⟨parts,tail,same,short,last⟩ := leadingStrings rest
    obtain ⟨whole,small⟩ := readParts reads
    refine ⟨part :: parts,tail,?_,List.forall_mem_cons.mpr ⟨small,short⟩,last⟩
    rw [whole, same, writeCons, List.cons_append, List.append_assoc]
termination_by raw.length
decreasing_by exact readShrinks reads

theorem writeLength (parts : List Bytes) : (write parts).length = (parts.map fun part => 1 + part.length).sum := by
  induction parts with
  | nil => rfl
  | cons part parts ih =>
    rw [writeCons, List.length_cons, List.length_append, ih, List.map_cons, List.sum_cons]
    omega

/- Up to an empty string at the end the strings can be told from what is written. -/
theorem writeInjective {a b : List Bytes} (shortA : ∀ part ∈ a, part.length < 256) (shortB : ∀ part ∈ b, part.length < 256)
    (same : write a ++ [0] = write b ++ [0]) : a = b := by
  induction a generalizing b with
  | nil =>
    cases b with
    | nil => rfl
    | cons part parts =>
      have length := congrArg List.length same
      rw [writeCons] at length
      simp [write] at length
  | cons part parts ih =>
    obtain ⟨short,rest⟩ := List.forall_mem_cons.mp shortA
    cases b with
    | nil =>
      have length := congrArg List.length same
      rw [writeCons] at length
      simp [write] at length
    | cons part' parts' =>
      obtain ⟨short',rest'⟩ := List.forall_mem_cons.mp shortB
      rw [writeCons, writeCons, List.cons_append, List.cons_append, List.append_assoc, List.append_assoc] at same
      have reads := readWritten short (write parts ++ [0])
      rw [same, readWritten short'] at reads
      simp only [Option.some.injEq, Prod.mk.injEq] at reads
      rw [reads.1, ih rest rest' reads.2.symm]

end Strings

section Chunks
variable {n : Nat}

theorem chunksNil : chunks n [] = [] := by
  rw [chunks, if_pos (.inl rfl)]

theorem chunksCons {raw : Bytes} (some' : raw ≠ []) (size : n ≠ 0) : chunks n raw = raw.take n :: chunks n (raw.drop n) := by
  rw [chunks, if_neg (not_or.mpr ⟨some',size⟩)]

theorem chunksFlatten (size : n ≠ 0) (raw : Bytes) : (chunks n raw).flatten = raw := by
  fun_induction chunks n raw with
  | case1 raw none' =>
    obtain rfl := none'.resolve_right size
    rfl
  | case2 raw some' ih => rw [List.flatten_cons, ih, List.take_append_drop]

theorem chunksShort (raw : Bytes) : ∀ part ∈ chunks n raw, part.length ≤ n := by
  fun_induction chunks n raw with
  | case1 => simp
  | case2 raw some' ih =>
    refine List.forall_mem_cons.mpr ⟨?_,ih⟩
    rw [List.length_take]
    omega

theorem chunksLength (size : n ≠ 0) (raw : Bytes) : (write (chunks n raw)).length = raw.length + (chunks n raw).length := by
  have flat := congrArg List.length (chunksFlatten size raw)
  rw [List.length_flatten] at flat
  rw [writeLength, ← flat]
  generalize chunks n raw = parts
  induction parts with
  | nil => rfl
  | cons part parts ih =>
    simp only [List.map_cons, List.sum_cons, List.length_cons] at ih ⊢
    omega

theorem chunksCount (size : n ≠ 0) (raw : Bytes) : (chunks n raw).length = (raw.length + n - 1) / n := by
  fun_induction chunks n raw with
  | case1 raw none' =>
    obtain rfl := none'.resolve_right size
    exact (Nat.div_eq_of_lt (by simp only [List.length_nil]; omega)).symm
  | case2 raw some' ih =>
    have positive : raw.length ≠ 0 := fun none' => some' (.inl (List.length_eq_zero_iff.mp none'))
    rw [List.length_cons, ih, List.length_drop, ← Nat.add_div_right _ (Nat.pos_of_ne_zero size)]
    by_cases more : n ≤ raw.length
    · congr 1
      omega
    · have last : raw.length - n + n - 1 + n = n - 1 + n := by omega
      rw [last, Nat.add_div_right _ (Nat.pos_of_ne_zero size), Nat.div_eq_of_lt (by omega)]
      exact (Nat.div_eq_of_lt_le (by omega) (by omega)).symm

end Chunks
end CadsTunnel.ShortStrings
