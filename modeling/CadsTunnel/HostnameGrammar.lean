import CadsTunnel.Hostnames

/-! The host names of RFC 1123, as a grammar: labels between dots, of letters, digits and
inner hyphens. The canonical form of a hostname is one, in lower case; a name that is
written with white space around it or with a dot at its end has the same form as without. -/
namespace CadsTunnel.HostnameGrammar
open Hostnames

/- Letters are in lower case here. -/
def LetterDigit (c : Char) : Prop := 'a' ≤ c ∧ c ≤ 'z' ∨ '0' ≤ c ∧ c ≤ '9'

structure Label (label : List Char) : Prop where
  nonempty : label ≠ []
  short : label.length ≤ 63
  chars : ∀ c ∈ label, LetterDigit c ∨ c = '-'
  first : ∀ c, label.head? = some c → LetterDigit c
  last : ∀ c, label.getLast? = some c → LetterDigit c

def HostName (s : List Char) : Prop := s.length ≤ 253 ∧ ∃ labels, labels ≠ [] ∧ (∀ label ∈ labels, Label label) ∧ s = ['.'].intercalate labels

/- A dot at the end, once. -/
def withoutDot (s : List Char) : List Char := if s.getLast? = some '.' then s.dropLast else s

section Characters
variable {c : Char} {s label : List Char}

theorem letterDigitChar (letter : LetterDigit c) : labelChar c = true ∧ c ≠ '-' ∧ c ≠ '.' ∧ c.toLower = c ∧ c.utf8Size = 1 := by
  have range : 97 ≤ c.toNat ∧ c.toNat ≤ 122 ∨ 48 ≤ c.toNat ∧ c.toNat ≤ 57 := letter
  have upper : ¬('A'.val ≤ c.val ∧ c.val ≤ 'Z'.val) := by
    intro both
    have low : 65 ≤ c.toNat := both.1
    have high : c.toNat ≤ 90 := both.2
    omega
  refine ⟨?_,?_,?_,?_,?_⟩
  · simp only [labelChar, Char.isAlphanum, Char.isAlpha, Char.isUpper, Char.isLower, Char.isDigit, Bool.or_eq_true,
      Bool.and_eq_true, decide_eq_true_eq, ge_iff_le]
    change ((65 ≤ c.toNat ∧ c.toNat ≤ 90 ∨ 97 ≤ c.toNat ∧ c.toNat ≤ 122) ∨ 48 ≤ c.toNat ∧ c.toNat ≤ 57) ∨ _
    omega
  · rintro rfl
    exact absurd range (by decide)
  · rintro rfl
    exact absurd range (by decide)
  · simp only [Char.toLower, ge_iff_le, upper, dif_neg, not_false_eq_true]
  · have small : c.val ≤ 127 := by
      change c.toNat ≤ 127
      omega
    exact Char.utf8Size_eq_one_iff.mpr small

theorem plainChar (plain : LetterDigit c ∨ c = '-') : labelChar c = true ∧ c ≠ '.' ∧ c.toLower = c ∧ c.utf8Size = 1 := by
  obtain letter | rfl := plain
  · obtain ⟨label,_,dot,lower,size⟩ := letterDigitChar letter
    exact ⟨label,dot,lower,size⟩
  · decide

/- A character of a label that lower case leaves alone. -/
theorem labelCharPlain (label : labelChar c) (lower : c.toLower = c) : LetterDigit c ∨ c = '-' := by
  simp only [labelChar, Char.isAlphanum, Char.isAlpha, Char.isUpper, Char.isLower, Char.isDigit, Bool.or_eq_true,
    Bool.and_eq_true, decide_eq_true_eq, beq_iff_eq, ge_iff_le] at label
  change ((65 ≤ c.toNat ∧ c.toNat ≤ 90 ∨ 97 ≤ c.toNat ∧ c.toNat ≤ 122) ∨ 48 ≤ c.toNat ∧ c.toNat ≤ 57) ∨ c = '-' at label
  obtain alphanumeric | hyphen := label
  · refine .inl ?_
    change 97 ≤ c.toNat ∧ c.toNat ≤ 122 ∨ 48 ≤ c.toNat ∧ c.toNat ≤ 57
    have upper : ¬(65 ≤ c.toNat ∧ c.toNat ≤ 90) := by
      intro range
      have shifted := congrArg Char.toNat lower
      have both : 'A'.val ≤ c.val ∧ c.val ≤ 'Z'.val := range
      simp only [Char.toLower, ge_iff_le, both, and_self, dif_pos] at shifted
      change (c.val + 32).toNat = c.val.toNat at shifted
      rw [UInt32.toNat_add] at shifted
      change (c.toNat + 32) % 4294967296 = c.toNat at shifted
      omega
    omega
  · exact .inr hyphen

theorem plainBytes (plain : ∀ c ∈ s, c.utf8Size = 1) : byteLength s = s.length := by
  induction s with
  | nil => rfl
  | cons c rest ih =>
    obtain ⟨first,later⟩ := List.forall_mem_cons.mp plain
    have tail := ih later
    rw [byteLength, List.map_cons, List.sum_cons, first, ← byteLength, tail, List.length_cons, Nat.add_comm]

end Characters

section Names
variable {s label : List Char}

/- What the code checks of a label in lower case is what the grammar says. -/
theorem labelIff (lower : ∀ c ∈ label, c.toLower = c) : validLabel label = true ↔ Label label := by
  constructor
  · intro valid
    simp only [validLabel, Bool.not_or, Bool.not_not, Bool.and_eq_true, Bool.not_eq_true', decide_eq_false_iff_not, List.all_eq_true,
      beq_eq_false_iff_ne, List.isEmpty_eq_false_iff, not_lt] at valid
    obtain ⟨⟨⟨⟨nonempty,short⟩,first⟩,last⟩,chars⟩ := valid
    have plain : ∀ c ∈ label, LetterDigit c ∨ c = '-' := fun c mem => labelCharPlain (chars c mem) (lower c mem)
    rw [plainBytes (fun c mem => (plainChar (plain c mem)).2.2.2)] at short
    refine ⟨nonempty,short,plain,?_,?_⟩
    · intro c here
      refine (plain c (List.mem_of_head? here)).resolve_right ?_
      rintro rfl
      exact first here
    · intro c here
      refine (plain c (List.mem_of_getLast? here)).resolve_right ?_
      rintro rfl
      exact last here
  · intro valid
    simp only [validLabel, Bool.not_or, Bool.not_not, Bool.and_eq_true, Bool.not_eq_true', decide_eq_false_iff_not, List.all_eq_true,
      beq_eq_false_iff_ne, List.isEmpty_eq_false_iff, not_lt]
    refine ⟨⟨⟨⟨valid.nonempty,?_⟩,?_⟩,?_⟩,fun c mem => (plainChar (valid.chars c mem)).1⟩
    · rw [plainBytes (fun c mem => (plainChar (valid.chars c mem)).2.2.2)]
      exact valid.short
    · exact fun here => (letterDigitChar (valid.first _ here)).2.1 rfl
    · exact fun here => (letterDigitChar (valid.last _ here)).2.1 rfl

theorem joinMem {parts : List (List Char)} {part : List Char} (piece : part ∈ parts) {c : Char} (mem : c ∈ part) : c ∈ ['.'].intercalate parts := by
  induction parts with
  | nil => contradiction
  | cons first rest ih =>
    cases rest with
    | nil =>
      cases List.mem_singleton.mp piece
      simpa using mem
    | cons second later =>
      rw [List.intercalate_cons_cons]
      obtain rfl | deeper := List.mem_cons.mp piece
      · exact List.mem_append_left _ (List.mem_append_left _ mem)
      · exact List.mem_append_right _ (ih deeper)

theorem joinChars {parts : List (List Char)} {p : Char → Prop} (dot : p '.') (chars : ∀ part ∈ parts, ∀ c ∈ part, p c) : ∀ c ∈ ['.'].intercalate parts, p c := by
  induction parts with
  | nil => simp
  | cons first rest ih =>
    obtain ⟨here,there⟩ := List.forall_mem_cons.mp chars
    cases rest with
    | nil => simpa using here
    | cons second later =>
      rw [List.intercalate_cons_cons]
      intro c mem
      obtain (front | middle) | back := (List.mem_append.mp mem).imp_left List.mem_append.mp
      · exact here c front
      · exact List.mem_singleton.mp middle ▸ dot
      · exact ih there c back

theorem hostNameIff (lower : ∀ c ∈ s, c.toLower = c) : HostName s ↔ s ≠ [] ∧ byteLength s ≤ 253 ∧ (s.splitOn '.').all validLabel = true := by
  constructor
  · rintro ⟨short,labels,some',valid,rfl⟩
    have clean : ∀ label ∈ labels, '.' ∉ label := fun label mem inside => (plainChar ((valid label mem).chars '.' inside)).2.1 rfl
    refine ⟨?_,?_,?_⟩
    · obtain ⟨label,mem⟩ := List.exists_mem_of_ne_nil _ some'
      obtain ⟨c,inside⟩ := List.exists_mem_of_ne_nil _ (valid label mem).nonempty
      exact List.ne_nil_of_mem (joinMem mem inside)
    · rw [plainBytes (joinChars (by decide) (fun label mem c inside => (plainChar ((valid label mem).chars c inside)).2.2.2))]
      exact short
    · rw [List.splitOn_intercalate '.' clean some', List.all_eq_true]
      intro label mem
      exact (labelIff (fun c inside => lower c (joinMem mem inside))).mpr (valid label mem)
  · rintro ⟨some',short,valid⟩
    have labels : ∀ label ∈ s.splitOn '.', Label label := by
      intro label mem
      refine (labelIff (fun c inside => lower c ?_)).mp (List.all_eq_true.mp valid label mem)
      rw [← @List.intercalate_splitOn Char s _ _ '.']
      exact joinMem mem inside
    have joined : s = ['.'].intercalate (s.splitOn '.') := (@List.intercalate_splitOn Char s _ _ '.').symm
    have sizes : ∀ c ∈ s, c.utf8Size = 1 := by
      rw [joined]
      exact joinChars (by decide) (fun label mem c inside => (plainChar ((labels label mem).chars c inside)).2.2.2)
    rw [plainBytes sizes] at short
    exact ⟨short,s.splitOn '.',List.splitOn_ne_nil _ _,labels,joined⟩

end Names

section Forms
variable {s : List Char}

/- Unless there are two, the dots at the end are the one. -/
theorem dropDots (single : ¬['.','.'] <:+ s) : s.rdropWhile (· == '.') = withoutDot s := by
  induction s using List.reverseRecOn with
  | nil => rfl
  | append_singleton front c ih =>
    rw [withoutDot, List.getLast?_append_cons, List.getLast?_singleton, List.dropLast_concat]
    by_cases dot : c = '.'
    · subst dot
      rw [List.rdropWhile_concat_pos _ _ _ (by decide), if_pos rfl]
      refine List.rdropWhile_eq_self_iff.mpr ?_
      intro some' last
      refine single ⟨front.dropLast,?_⟩
      have same : front = front.dropLast ++ ['.'] := by
        have last' := List.dropLast_append_getLast some'
        rw [beq_iff_eq.mp last] at last'
        exact last'.symm
      rw [same]
      simp
    · rw [List.rdropWhile_concat_neg _ _ _ (by simpa using dot), if_neg (by simpa using dot)]

theorem lowerAgain (s : List Char) : ∀ c ∈ s.map Char.toLower, c.toLower = c := by
  intro c mem
  obtain ⟨old,_,rfl⟩ := List.mem_map.mp mem
  exact Char.toLower_toLower_eq_toLower old

theorem normalizeIff (text : String) (key : String) :
    normalizeHostname text = some key ↔ key.toList = ((trim text.toList).rdropWhile (· == '.')).map Char.toLower ∧ HostName key.toList := by
  unfold normalizeHostname
  dsimp only
  generalize (trim text.toList).rdropWhile (· == '.') = bare
  have iff := hostNameIff (lowerAgain bare)
  constructor
  · intro same
    split at same <;> try contradiction
    rename_i size
    split at same <;> try contradiction
    rename_i valid
    cases Option.some.inj same
    rw [Bool.or_eq_true, not_or, decide_eq_true_eq, not_lt, List.isEmpty_iff] at size
    rw [String.toList_ofList]
    exact ⟨rfl,iff.mpr ⟨size.1,size.2,valid⟩⟩
  · rintro ⟨same,name⟩
    rw [same] at name
    obtain ⟨some',short,valid⟩ := iff.mp name
    rw [if_neg (by simpa using ⟨by simpa using some',short⟩), if_pos valid, ← same, String.ofList_toList]

/- A name in canonical form is a host name, and its own form; and who does not end in two dots has a form just if it is a host
name, but for white space around it, the case of its letters and one dot at its end. -/
theorem normalized : (∀ text key : String, ¬['.','.'] <:+ trim text.toList →
      (normalizeHostname text = some key ↔ key.toList = (withoutDot (trim text.toList)).map Char.toLower ∧ HostName key.toList)) ∧
    ∀ text key : String, normalizeHostname text = some key → HostName key.toList ∧ normalizeHostname key = some key := by
  constructor
  · intro text key single
    rw [normalizeIff, dropDots single]
  · intro text key same
    exact ⟨((normalizeIff text key).mp same).2,normalizedStays same⟩

theorem normalizedDot : HostName "a.b".toList := ((normalized.1 "A.b." "a.b" (by decide)).mp (by decide)).2

/- White space is not part of a host name. -/
theorem spaceAccepted : ¬∀ text : String, (normalizeHostname text).isSome ↔ HostName ((withoutDot text.toList).map Char.toLower) := by
  intro claim
  obtain ⟨_,labels,_,valid,joined⟩ := (claim " a").mp (by decide)
  have space : ' ' ∈ ['.'].intercalate labels := by
    rw [← joined]
    decide
  have none' : ∀ c ∈ ['.'].intercalate labels, c ≠ ' ' := joinChars (by decide) (fun label mem c inside => by
    rintro rfl
    obtain letter | hyphen := (valid label mem).chars ' ' inside
    · exact absurd (letterDigitChar letter).1 (by decide)
    · exact absurd hyphen (by decide))
  exact none' ' ' space rfl

end Forms
end CadsTunnel.HostnameGrammar
