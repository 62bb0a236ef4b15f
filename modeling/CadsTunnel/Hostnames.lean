import CadsTunnel.Words

/-! The canonical form of a DNS hostname. What normalization accepts it leaves alone: a
second pass over the result changes nothing, so a routing key is its own canonical form. -/
namespace CadsTunnel.Hostnames

/- The White_Space characters that `str::trim` strips. -/
def whitespace (c : Char) : Bool :=
  (9 ≤ c.toNat && c.toNat ≤ 13) || c.toNat == 32 || c.toNat == 0x85 || c.toNat == 0xa0 || c.toNat == 0x1680 ||
  (0x2000 ≤ c.toNat && c.toNat ≤ 0x200a) || c.toNat == 0x2028 || c.toNat == 0x2029 || c.toNat == 0x202f ||
  c.toNat == 0x205f || c.toNat == 0x3000

def trim (s : List Char) : List Char := (s.dropWhile whitespace).rdropWhile whitespace

def byteLength (s : List Char) : Nat := (s.map Char.utf8Size).sum

/- Byte by byte in the source: no byte of a character beyond ASCII is alphanumeric. -/
def labelChar (c : Char) : Bool := c.isAlphanum || c == '-'

def validLabel (label : List Char) : Bool :=
  !(label.isEmpty || 63 < byteLength label || label.head? == some '-' || label.getLast? == some '-' || !label.all labelChar)

def normalizeHostname (s : String) : Option String :=
  let s := ((trim s.toList).rdropWhile (· == '.')).map Char.toLower
  if s.isEmpty || 253 < byteLength s then none
  else if (s.splitOn '.').all validLabel then some (.ofList s)
  else none

theorem labelCharVisible {c : Char} (label : labelChar c) : whitespace c = false := by
  simp only [labelChar, Char.isAlphanum, Char.isAlpha, Char.isUpper, Char.isLower, Char.isDigit, Bool.or_eq_true,
    Bool.and_eq_true, decide_eq_true_eq, beq_iff_eq, ge_iff_le, UInt32.le_iff_toNat_le] at label
  change ((65 ≤ c.toNat ∧ c.toNat ≤ 90 ∨ 97 ≤ c.toNat ∧ c.toNat ≤ 122) ∨ 48 ≤ c.toNat ∧ c.toNat ≤ 57) ∨ c = '-' at label
  obtain alphanumeric | rfl := label
  · simp only [whitespace, Bool.or_eq_false_iff, Bool.and_eq_false_iff, decide_eq_false_iff_not, beq_eq_false_iff_ne]
    omega
  · decide

/- The characters of a name whose labels are valid. -/
theorem labelsPlain {s : List Char} (valid : (s.splitOn '.').all validLabel) {c : Char} (mem : c ∈ s) : labelChar c = true ∨ c = '.' := by
  rw [← @List.intercalate_splitOn Char s _ _ '.'] at mem
  obtain ⟨part,piece,inside⟩ := List.mem_flatten.mp mem
  have dot : part = ['.'] ∨ part ∈ s.splitOn '.' := by
    generalize s.splitOn '.' = labels at piece ⊢
    induction labels with
    | nil => simp at piece
    | cons first rest ih =>
      cases rest with
      | nil => exact .inr (by simpa using piece)
      | cons second later =>
        simp only [List.intersperse_cons_cons, List.mem_cons] at piece
        obtain rfl | rfl | deeper := piece
        · exact .inr List.mem_cons_self
        · exact .inl rfl
        · exact (ih deeper).imp id (List.mem_cons_of_mem _)
  obtain rfl | label := dot
  · exact .inr (List.mem_singleton.mp inside)
  · have checked := List.all_eq_true.mp valid part label
    simp only [validLabel, Bool.not_or, Bool.not_not, Bool.and_eq_true] at checked
    exact .inl (List.all_eq_true.mp checked.2 c inside)

theorem labelsVisible {s : List Char} (valid : (s.splitOn '.').all validLabel) {c : Char} (mem : c ∈ s) : whitespace c = false := by
  obtain label | rfl := labelsPlain valid mem
  · exact labelCharVisible label
  · decide

theorem normalizedPlain {s key : String} (h : normalizeHostname s = some key) {c : Char} (mem : c ∈ key.toList) : labelChar c = true ∨ c = '.' := by
  unfold normalizeHostname at h
  dsimp only at h
  split at h <;> try contradiction
  split at h <;> try contradiction
  case isTrue valid =>
    cases Option.some.inj h
    exact labelsPlain valid (by simpa using mem)

theorem toLowerDot (c : Char) : c.toLower = '.' ↔ c = '.' := by
  constructor
  · intro lower
    have upper : ¬('A'.val ≤ c.val ∧ c.val ≤ 'Z'.val) := by
      intro range
      have value := congrArg (fun d : Char => d.val.toNat) lower
      simp only [Char.toLower, ge_iff_le, range, and_self, dif_pos, UInt32.toNat_add] at value
      simp only [UInt32.le_iff_toNat_le] at range
      change (c.val.toNat + 32) % 4294967296 = 46 at value
      change 65 ≤ c.val.toNat ∧ c.val.toNat ≤ 90 at range
      omega
    simpa only [Char.toLower, ge_iff_le, upper, dif_neg, not_false_eq_true] using lower
  · rintro rfl
    rfl

theorem trimVisible {s : List Char} (visible : ∀ c ∈ s, whitespace c = false) : trim s = s := by
  have front : s.dropWhile whitespace = s := by
    refine List.dropWhile_eq_self_iff.mpr (fun some => ?_)
    simp [visible _ (List.getElem_mem some)]
  rw [trim, front, List.rdropWhile_eq_self_iff]
  intro some
  simp [visible _ (List.getLast_mem some)]

theorem normalizedStays {s key : String} (h : normalizeHostname s = some key) : normalizeHostname key = some key := by
  unfold normalizeHostname at h
  dsimp only at h
  split at h
  case isTrue => exact absurd h (by simp)
  case isFalse size =>
    split at h
    case isFalse => exact absurd h (by simp)
    case isTrue valid =>
      cases Option.some.inj h
      have lower : (((trim s.toList).rdropWhile (· == '.')).map Char.toLower).map Char.toLower =
          ((trim s.toList).rdropWhile (· == '.')).map Char.toLower := by
        simp [Char.toLower_toLower_eq_toLower]
      have dotless : (((trim s.toList).rdropWhile (· == '.')).map Char.toLower).rdropWhile (· == '.') =
          ((trim s.toList).rdropWhile (· == '.')).map Char.toLower := by
        refine List.rdropWhile_eq_self_iff.mpr (fun some => ?_)
        have last := List.rdropWhile_last_not (p := (· == '.')) (trim s.toList) (by simpa using some)
        rw [List.getLast_map]
        simpa [toLowerDot] using last
      have trimmed := trimVisible (fun c mem => labelsVisible valid mem)
      unfold normalizeHostname
      simp only [String.toList_ofList, trimmed, dotless, lower, size, valid, if_true, Bool.false_eq_true, if_false]

end CadsTunnel.Hostnames
