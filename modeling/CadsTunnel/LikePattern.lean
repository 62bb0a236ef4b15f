import Mathlib

/-! The `LIKE` operator of the database, as it reads a pattern and a text: up to the first NUL,
the ASCII letters without their case, the two noncharacters as the replacement character. A
pattern that has an escaped word between wildcards asks for an infix; where the word is
delimited, the infix is a run of the pieces of the text. -/
namespace CadsTunnel.LikePattern

/- A character as it is compared. -/
def folded (c : Char) : Char := if c.toNat = 0xFFFE ∨ c.toNat = 0xFFFF then '\uFFFD' else c.toLower

def readable (text : List Char) : List Char := text.takeWhile (fun c => c ≠ '\x00')

def likeMatch : List Char → List Char → Bool
  | [], text => text.isEmpty
  | c :: rest, text =>
    if c = '%' then text.tails.any (likeMatch rest)
    else if c = '\\' then
      match rest, text with
      | e :: more, t :: later => folded e = folded t && likeMatch more later
      | _, _ => false
    else
      match text with
      | t :: later => (c = '_' || folded c = folded t) && likeMatch rest later
      | [] => false

def special (c : Char) : Bool := c = '\\' || c = '%' || c = '_'

def escaped (word : List Char) : List Char := word.flatMap (fun c => if special c then ['\\',c] else [c])

section Matching
variable {text : List Char}

theorem escapedAppend (first later : List Char) : escaped (first ++ later) = escaped first ++ escaped later := List.flatMap_append

/- A wildcard skips to some end of the text. -/
theorem matchAny {rest : List Char} : likeMatch ('%' :: rest) text ↔ ∃ skipped later, text = skipped ++ later ∧ likeMatch rest later := by
  rw [likeMatch.eq_def]
  dsimp only
  rw [if_pos rfl, List.any_eq_true]
  constructor
  · rintro ⟨later,ending,found⟩
    obtain ⟨skipped,rfl⟩ := (List.mem_tails _ _).mp ending
    exact ⟨skipped,later,rfl,found⟩
  · rintro ⟨skipped,later,rfl,found⟩
    exact ⟨later,(List.mem_tails _ _).mpr (List.suffix_append _ _),found⟩

theorem matchEnd : likeMatch ['%'] text := matchAny.mpr ⟨text,[],(List.append_nil _).symm,rfl⟩

theorem matchOne {c : Char} {rest : List Char} : likeMatch (escaped [c] ++ rest) text ↔
    ∃ t later, text = t :: later ∧ folded c = folded t ∧ likeMatch rest later := by
  have opened : escaped [c] = if special c then ['\\',c] else [c] := by rw [escaped, List.flatMap_singleton]
  rw [opened]
  cases plain : special c with
  | true =>
    rw [if_pos rfl, List.cons_append, List.singleton_append, likeMatch.eq_def]
    dsimp only
    rw [if_neg (by decide), if_pos rfl]
    cases text <;> simp
  | false =>
    rw [if_neg Bool.false_ne_true, List.singleton_append]
    simp only [special, Bool.or_eq_false_iff, decide_eq_false_iff_not] at plain
    obtain ⟨⟨slash,percent⟩,line⟩ := plain
    rw [likeMatch.eq_def]
    dsimp only
    rw [if_neg percent, if_neg slash]
    cases text <;> simp [line]

/- An escaped word stands for itself. -/
theorem matchWord {word rest : List Char} : likeMatch (escaped word ++ rest) text ↔
    ∃ here later, text = here ++ later ∧ word.map folded = here.map folded ∧ likeMatch rest later := by
  induction word generalizing text with
  | nil =>
    constructor
    · intro found
      exact ⟨[],text,rfl,rfl,found⟩
    · rintro ⟨here,later,rfl,same,found⟩
      rw [List.map_nil, eq_comm, List.map_eq_nil_iff] at same
      rw [same]
      exact found
  | cons c word ih =>
    rw [← List.singleton_append, escapedAppend, List.append_assoc, matchOne]
    constructor
    · rintro ⟨t,more,rfl,same,found⟩
      obtain ⟨here,later,rfl,each,last⟩ := ih.mp found
      exact ⟨t :: here,later,rfl,by rw [List.singleton_append, List.map_cons, List.map_cons, same, each],last⟩
    · rintro ⟨here,later,rfl,same,found⟩
      cases here with
      | nil => simp at same
      | cons t here =>
        rw [List.singleton_append, List.map_cons, List.map_cons] at same
        obtain ⟨first,each⟩ := List.cons.inj same
        exact ⟨t,here ++ later,rfl,first,ih.mpr ⟨here,later,rfl,each,found⟩⟩

/- A word between wildcards asks for an infix, a word after one for a suffix. -/
theorem matchInfix {word : List Char} : likeMatch ('%' :: (escaped word ++ ['%'])) text ↔ word.map folded <:+: text.map folded := by
  rw [matchAny]
  constructor
  · rintro ⟨skipped,more,rfl,found⟩
    obtain ⟨here,later,rfl,same,_⟩ := matchWord.mp found
    refine ⟨skipped.map folded,later.map folded,?_⟩
    rw [same, List.map_append, List.map_append, List.append_assoc]
  · rintro ⟨before,after,whole⟩
    obtain ⟨more,later,rfl,front,_⟩ := List.map_eq_append_iff.mp whole.symm
    obtain ⟨skipped,here,rfl,_,same⟩ := List.map_eq_append_iff.mp front
    exact ⟨skipped,here ++ later,List.append_assoc _ _ _,matchWord.mpr ⟨here,later,rfl,same.symm,matchEnd⟩⟩

theorem matchSuffix {word : List Char} : likeMatch ('%' :: escaped word) text ↔ word.map folded <:+ text.map folded := by
  rw [matchAny]
  constructor
  · rintro ⟨skipped,more,rfl,found⟩
    rw [← List.append_nil (escaped word)] at found
    obtain ⟨here,later,rfl,same,last⟩ := matchWord.mp found
    rw [likeMatch, List.isEmpty_iff] at last
    refine ⟨skipped.map folded,?_⟩
    rw [same, last, List.append_nil, List.map_append]
  · rintro ⟨before,whole⟩
    obtain ⟨skipped,here,rfl,_,same⟩ := List.map_eq_append_iff.mp whole.symm
    refine ⟨skipped,here,rfl,?_⟩
    rw [← List.append_nil (escaped word)]
    exact matchWord.mpr ⟨here,[],(List.append_nil _).symm,same.symm,rfl⟩

end Matching

/- Pieces of a text between delimiters. -/
section Runs
variable {α : Type} [BEq α] [LawfulBEq α] {d : α} {word text : List α}

omit [BEq α] [LawfulBEq α] in
theorem joinAppend {first later : List (List α)} (some' : first ≠ []) (more : later ≠ []) :
    [d].intercalate (first ++ later) = [d].intercalate first ++ d :: [d].intercalate later := by
  induction first with
  | nil => contradiction
  | cons piece first ih =>
    by_cases last : first = []
    · rw [last, List.singleton_append, List.intercalate_cons_of_ne_nil more, List.intercalate_singleton, List.append_assoc, List.singleton_append]
    · have longer : first ++ later ≠ [] := by simp [last]
      rw [List.cons_append, List.intercalate_cons_of_ne_nil longer, List.intercalate_cons_of_ne_nil last, ih last, List.append_assoc, List.append_assoc,
        List.append_assoc]

theorem splitStart (text : List α) : (d :: text).splitOn d = [] :: text.splitOn d := by
  rw [List.splitOn_cons_eq_if_modifyHead, if_pos (beq_self_eq_true d)]

/- A delimited word is a run of whole pieces of the text. -/
theorem infixPieces : d :: (word ++ [d]) <:+: d :: text ↔ word.splitOn d <:+: (text.splitOn d).dropLast := by
  constructor
  · rintro ⟨before,after,whole⟩
    have cut : before ++ d :: (word ++ d :: after) = d :: text := by
      rw [← whole]
      simp
    have pieces := congrArg (List.splitOn d) cut
    rw [List.splitOn_append_cons_self, List.splitOn_append_cons_self, splitStart] at pieces
    obtain ⟨first,front,same⟩ := List.exists_cons_of_ne_nil (List.splitOn_ne_nil d before)
    rw [same, List.cons_append] at pieces
    obtain ⟨_,rest⟩ := List.cons.inj pieces
    refine ⟨front,(after.splitOn d).dropLast,?_⟩
    rw [← rest, ← List.append_assoc, List.dropLast_append_of_ne_nil (List.splitOn_ne_nil d after)]
  · rintro ⟨before,after,whole⟩
    have last := List.dropLast_concat_getLast (List.splitOn_ne_nil d text)
    rw [← whole] at last
    generalize (text.splitOn d).getLast _ = final at last
    have pieces : [] :: before ++ (word.splitOn d ++ (after ++ [final])) = (d :: text).splitOn d := by
      rw [splitStart, ← last]
      simp
    have joined := congrArg [d].intercalate pieces
    rw [List.intercalate_splitOn, joinAppend (List.cons_ne_nil _ _) (by simp), joinAppend (List.splitOn_ne_nil d word) (by simp),
      List.intercalate_splitOn] at joined
    refine ⟨[d].intercalate ([] :: before),[d].intercalate (after ++ [final]),?_⟩
    rw [← joined]
    simp

theorem suffixPieces : d :: word <:+ d :: text ↔ word.splitOn d <:+ text.splitOn d := by
  constructor
  · rintro ⟨before,whole⟩
    have pieces := congrArg (List.splitOn d) whole
    rw [List.splitOn_append_cons_self, splitStart] at pieces
    obtain ⟨first,front,same⟩ := List.exists_cons_of_ne_nil (List.splitOn_ne_nil d before)
    rw [same, List.cons_append] at pieces
    exact ⟨front,(List.cons.inj pieces).2⟩
  · rintro ⟨before,whole⟩
    have pieces : [] :: before ++ word.splitOn d = (d :: text).splitOn d := by rw [splitStart, ← whole, List.cons_append]
    have joined := congrArg [d].intercalate pieces
    rw [List.intercalate_splitOn, joinAppend (List.cons_ne_nil _ _) (List.splitOn_ne_nil d word), List.intercalate_splitOn] at joined
    exact ⟨[d].intercalate ([] :: before),joined⟩

end Runs
end CadsTunnel.LikePattern
