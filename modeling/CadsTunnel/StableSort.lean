import Mathlib

/-! Sorting by a descending key, equal keys in their old order: where an element comes to
stand, and which elements stand behind the first ones. -/
namespace CadsTunnel.StableSort

section Places
variable {α κ : Type} [LinearOrder κ]

def descending (key : α → κ) (xs : List α) : List α := xs.insertionSort (fun a b => key b ≤ key a)

variable {key : α → κ}

theorem descendingSorted (xs : List α) : (descending key xs).Pairwise (fun a b => key b ≤ key a) := by
  have total : Std.Total (fun a b : α => key b ≤ key a) := ⟨fun a b => le_total (key b) (key a)⟩
  have trans : IsTrans α (fun a b => key b ≤ key a) := ⟨fun _ _ _ first second => second.trans first⟩
  exact List.pairwise_insertionSort _ xs

theorem descendingPerm (xs : List α) : (descending key xs).Perm xs := List.perm_insertionSort _ xs

theorem leadingCount {xs : List α} (sorted : xs.Pairwise (fun a b => key b ≤ key a)) (k : κ) :
    (xs.takeWhile (fun a => decide ¬key a ≤ k)).length = xs.countP (fun a => k < key a) := by
  induction xs with
  | nil => rfl
  | cons x xs ih =>
    obtain ⟨below,rest⟩ := List.pairwise_cons.mp sorted
    by_cases high : key x ≤ k
    · have none' : xs.countP (fun a => k < key a) = 0 := by
        rw [List.countP_eq_zero]
        intro a mem
        simpa using (below a mem).trans high
      rw [List.takeWhile_cons_of_neg (by simpa using high), List.countP_cons_of_neg (by simpa using high), none']
      rfl
    · rw [List.takeWhile_cons_of_pos (by simpa using high), List.countP_cons_of_pos (by simpa using high), List.length_cons, ih rest]

theorem insertBefore {x y : α} (high : key x ≤ key y) (first last : List α) : ∃ first',
    (first ++ x :: last).orderedInsert (fun a b => key b ≤ key a) y = first' ++ x :: last ∧ first'.length = first.length + 1 := by
  induction first with
  | nil => exact ⟨[y],if_pos high,rfl⟩
  | cons a first ih =>
    rw [List.cons_append, List.orderedInsert_cons]
    split
    case isTrue => exact ⟨y :: a :: first,rfl,rfl⟩
    case isFalse =>
      obtain ⟨first',inserted,length⟩ := ih
      exact ⟨a :: first',congrArg (a :: ·) inserted,congrArg (· + 1) length⟩

theorem insertBehind {x y : α} (low : key y < key x) (last : List α) {first : List α} (above : ∀ a ∈ first, key x ≤ key a) :
    (first ++ x :: last).orderedInsert (fun a b => key b ≤ key a) y = first ++ x :: last.orderedInsert (fun a b => key b ≤ key a) y := by
  induction first with
  | nil => exact if_neg low.not_ge
  | cons a first ih =>
    obtain ⟨head,rest⟩ := List.forall_mem_cons.mp above
    rw [List.cons_append, List.orderedInsert_cons, if_neg (low.trans_le head).not_ge, ih rest]
    rfl

/- Before an element stand the earlier ones that are not below it and the later ones above it. -/
theorem descendingPlace (before after : List α) (x : α) : ∃ first last, descending key (before ++ x :: after) = first ++ x :: last ∧
    first.length = before.countP (fun a => key x ≤ key a) + after.countP (fun a => key x < key a) := by
  induction before with
  | nil =>
    refine ⟨(descending key after).takeWhile (fun a => decide ¬key a ≤ key x),(descending key after).dropWhile (fun a => decide ¬key a ≤ key x),
      List.insertionSort_cons_eq_take_drop (fun a b => key b ≤ key a) x after,?_⟩
    rw [leadingCount (descendingSorted after), (descendingPerm after).countP_eq, List.countP_nil, Nat.zero_add]
  | cons y before ih =>
    obtain ⟨first,last,sorts,length⟩ := ih
    have inserts : descending key (y :: before ++ x :: after) = (first ++ x :: last).orderedInsert (fun a b => key b ≤ key a) y := by
      rw [← sorts]
      rfl
    by_cases high : key x ≤ key y
    · obtain ⟨first',inserted,more⟩ := insertBefore high first last
      refine ⟨first',last,inserts.trans inserted,?_⟩
      rw [more, length, List.countP_cons_of_pos (by simpa using high)]
      omega
    · have above : ∀ a ∈ first, key x ≤ key a := by
        have sorted : (descending key (before ++ x :: after)).Pairwise (fun a b => key b ≤ key a) := descendingSorted _
        rw [sorts] at sorted
        exact fun a mem => (List.pairwise_append.mp sorted).2.2 a mem x List.mem_cons_self
      refine ⟨first,_,inserts.trans (insertBehind (not_le.mp high) last above),?_⟩
      rw [length, List.countP_cons_of_neg (by simpa using high)]

theorem behindFirst {before after : List α} {x : α} (distinct : (before ++ x :: after).Nodup) (k : Nat) :
    x ∈ (descending key (before ++ x :: after)).drop k ↔
      k ≤ before.countP (fun a => key x ≤ key a) + after.countP (fun a => key x < key a) := by
  obtain ⟨first,last,sorts,length⟩ : ∃ first last, descending key (before ++ x :: after) = first ++ x :: last ∧ _ := descendingPlace before after x
  have once : (first ++ x :: last).Nodup := sorts ▸ (descendingPerm _).nodup_iff.mpr distinct
  rw [sorts, ← length]
  constructor
  case mpr =>
    intro behind
    rw [List.drop_append_of_le_length behind]
    exact List.mem_append_right _ List.mem_cons_self
  case mp =>
    intro mem
    by_contra ahead
    obtain ⟨more,rfl⟩ := Nat.exists_eq_add_of_lt (Nat.lt_of_not_le ahead)
    rw [Nat.add_assoc, List.drop_length_add_append, List.drop_succ_cons] at mem
    exact (List.nodup_cons.mp (List.nodup_append.mp once).2.1).1 (List.mem_of_mem_drop mem)

end Places

end CadsTunnel.StableSort
