import CadsTunnel.Words

/-! Cutting a text at a separator, from the left, from the right and into a bounded number of
parts; and reading a decimal number of 64 bits. -/
namespace CadsTunnel.SplitText

def cut (sep : Char) : List Char → Option (List Char × List Char)
  | [] => none
  | c :: rest => if c = sep then some ([],rest) else (cut sep rest).map (fun parts => (c :: parts.1,parts.2))

/- `split_once`, `rsplit_once` and `splitn`. -/
def splitOnce (sep : Char) (s : String) : Option (String × String) :=
  (cut sep s.toList).map (fun parts => (.ofList parts.1,.ofList parts.2))

def rsplitOnce (sep : Char) (s : String) : Option (String × String) :=
  (cut sep s.toList.reverse).map (fun parts => (.ofList parts.2.reverse,.ofList parts.1.reverse))

def splitn : Nat → Char → String → List String
  | 0, _, _ => []
  | 1, _, s => [s]
  | n + 2, sep, s =>
    match splitOnce sep s with
    | none => [s]
    | some (first,rest) => first :: splitn (n + 1) sep rest

/- `parse::<u64>`: a sign is allowed, an empty text is not. -/
def parseU64 (s : String) : Option UInt64 :=
  let digits := match s.toList with
    | '+' :: rest => rest
    | other => other
  if digits.isEmpty || !digits.all Char.isDigit then none
  else
    let value := Nat.ofDigitChars 10 digits 0
    if value < 2 ^ 64 then some (.ofNat value) else none

def decimal (n : UInt64) : String := .ofList (Nat.toDigits 10 n.toNat)

section Cuts
variable {sep : Char}

theorem cutFirst {before : List Char} (clean : sep ∉ before) (after : List Char) : cut sep (before ++ sep :: after) = some (before,after) := by
  induction before with
  | nil => exact if_pos rfl
  | cons c before ih =>
    obtain ⟨other,rest⟩ := not_or.mp (mt List.mem_cons.mpr clean)
    rw [List.cons_append, cut, if_neg (Ne.symm other), ih rest]
    rfl

theorem cutNone {s : List Char} (clean : sep ∉ s) : cut sep s = none := by
  induction s with
  | nil => rfl
  | cons c s ih =>
    obtain ⟨other,rest⟩ := not_or.mp (mt List.mem_cons.mpr clean)
    rw [cut, if_neg (Ne.symm other), ih rest]
    rfl

theorem cutParts {s before after : List Char} (parts : cut sep s = some (before,after)) : s = before ++ sep :: after ∧ sep ∉ before := by
  induction s generalizing before with
  | nil => contradiction
  | cons c s ih =>
    rw [cut] at parts
    split at parts
    case isTrue same =>
      cases Option.some.inj parts
      exact ⟨by rw [same]; rfl,List.not_mem_nil⟩
    case isFalse other =>
      obtain ⟨⟨more,rest⟩,cuts,same⟩ := Option.map_eq_some_iff.mp parts
      cases same
      obtain ⟨rfl,clean⟩ := ih cuts
      exact ⟨rfl,mt List.mem_cons.mp (not_or.mpr ⟨Ne.symm other,clean⟩)⟩

theorem splitFirst {before after : String} (clean : sep ∉ before.toList) :
    splitOnce sep (before ++ String.singleton sep ++ after) = some (before,after) := by
  have chars : (before ++ String.singleton sep ++ after).toList = before.toList ++ sep :: after.toList := by simp
  rw [splitOnce, chars, cutFirst clean]
  simp

theorem splitLast {before after : String} (clean : sep ∉ after.toList) :
    rsplitOnce sep (before ++ String.singleton sep ++ after) = some (before,after) := by
  have chars : (before ++ String.singleton sep ++ after).toList.reverse = after.toList.reverse ++ sep :: before.toList.reverse := by simp
  rw [rsplitOnce, chars, cutFirst (by simpa using clean)]
  simp

theorem splitNone {s : String} (clean : sep ∉ s.toList) : splitOnce sep s = none := by
  rw [splitOnce, cutNone clean]
  rfl

theorem splitParts {s before after : String} (parts : splitOnce sep s = some (before,after)) :
    s = before ++ String.singleton sep ++ after ∧ sep ∉ before.toList := by
  obtain ⟨⟨first,rest⟩,cuts,same⟩ := Option.map_eq_some_iff.mp parts
  cases same
  obtain ⟨whole,clean⟩ := cutParts cuts
  refine ⟨String.toList_inj.mp ?_,by simpa using clean⟩
  simpa using whole

theorem splitLastParts {s before after : String} (parts : rsplitOnce sep s = some (before,after)) :
    s = before ++ String.singleton sep ++ after ∧ sep ∉ after.toList := by
  obtain ⟨⟨first,rest⟩,cuts,same⟩ := Option.map_eq_some_iff.mp parts
  cases same
  obtain ⟨whole,clean⟩ := cutParts cuts
  refine ⟨String.toList_inj.mp ?_,by simpa using clean⟩
  have chars := congrArg List.reverse whole
  simpa using chars

/- The parts of a text that is put together from clean ones. -/
theorem splitnNext {n : Nat} {first rest : String} (clean : sep ∉ first.toList) :
    splitn (n + 2) sep (first ++ String.singleton sep ++ rest) = first :: splitn (n + 1) sep rest := by
  rw [splitn, splitFirst clean]

theorem splitnLast {n : Nat} {s : String} (clean : sep ∉ s.toList) : splitn (n + 1) sep s = [s] := by
  cases n with
  | zero => rfl
  | succ n => rw [splitn, splitNone clean]

end Cuts

theorem decimalDigits (n : UInt64) : ∀ c ∈ (decimal n).toList, c.isDigit = true := by
  intro c mem
  rw [decimal, String.toList_ofList] at mem
  exact Nat.isDigit_of_mem_toDigits (by decide) (by decide) mem

theorem parseDecimal (n : UInt64) : parseU64 (decimal n) = some n := by
  have digits := decimalDigits n
  have chars : (decimal n).toList = Nat.toDigits 10 n.toNat := String.toList_ofList
  rw [chars] at digits
  have opens : (match Nat.toDigits 10 n.toNat with
      | '+' :: rest => rest
      | other => other) = Nat.toDigits 10 n.toNat := by
    split
    case h_1 rest plus => exact absurd (digits '+' (by rw [plus]; exact List.mem_cons_self)) (by decide)
    case h_2 => rfl
  have filled : (Nat.toDigits 10 n.toNat).isEmpty = false := by
    rw [List.isEmpty_eq_false_iff]
    exact Nat.toDigits_ne_nil
  have numeric : (Nat.toDigits 10 n.toNat).all Char.isDigit = true := List.all_eq_true.mpr digits
  simp only [parseU64, chars, opens, filled, numeric, Nat.ofDigitChars_ten_toDigits, Bool.not_true, Bool.or_self, Bool.false_eq_true,
    if_false, n.toNat_lt, if_true, UInt64.ofNat_toNat]

end CadsTunnel.SplitText
