import CadsTunnel.OrderedMap

/-! Two ways of sharing out work. A rotation takes the next element above the one it
took last and starts over at the least, so as many turns as there are elements take each
once. Taking one that was taken least often keeps the counts level, until a counter of
limited range starts over. -/
namespace CadsTunnel.FairChoice

section Rotation
variable {α : Type} [Ord α]

/- The least element above the cursor, or the least of all if none is above it. -/
def Following (among : α → Prop) (cursor : Option α) (k : α) : Prop :=
  among k ∧
    ((∃ last, cursor = some last ∧ compare last k = .lt ∧ ∀ k', among k' → compare last k' = .lt → (compare k k').isLE) ∨
      ((∀ last, cursor = some last → ∀ k', among k' → compare last k' ≠ .lt) ∧ ∀ k', among k' → (compare k k').isLE))

inductive Rotates (among : α → Prop) : Option α → List α → Prop
  | nil {cursor : Option α} : Rotates among cursor []
  | cons {cursor : Option α} {k : α} {ks : List α} : Following among cursor k → Rotates among (some k) ks →
      Rotates among cursor (k :: ks)

variable [Std.TransOrd α]

theorem risingBefore {ring : List α} (rising : ring.Pairwise fun a b => compare a b = .lt) {i j : Nat} {a b : α}
    (atI : ring[i]? = some a) (atJ : ring[j]? = some b) (above : compare a b = .lt) : i < j := by
  obtain ⟨insideI,rfl⟩ := List.getElem?_eq_some_iff.mp atI
  obtain ⟨insideJ,rfl⟩ := List.getElem?_eq_some_iff.mp atJ
  rcases Nat.lt_trichotomy i j with before | rfl | after
  · exact before
  · simp [Std.ReflCmp.compare_self] at above
  · have below := List.pairwise_iff_getElem.mp rising j i insideJ insideI after
    rw [Std.OrientedCmp.gt_of_lt below] at above
    contradiction

theorem leastFirst {ring : List α} (rising : ring.Pairwise fun a b => compare a b = .lt) {j : Nat} {a b : α} {i : Nat}
    (atI : ring[i]? = some a) (atJ : ring[j]? = some b) (least : (compare b a).isLE) : j ≤ i := by
  by_contra after
  obtain ⟨insideI,rfl⟩ := List.getElem?_eq_some_iff.mp atI
  obtain ⟨insideJ,rfl⟩ := List.getElem?_eq_some_iff.mp atJ
  have below := List.pairwise_iff_getElem.mp rising i j insideI insideJ (by omega)
  rw [Std.OrientedCmp.gt_of_lt below] at least
  contradiction

/- From one place of the ring the rotation moves to the next. -/
theorem followingNext {ring : List α} (rising : ring.Pairwise fun a b => compare a b = .lt) {i : Nat} {last k : α}
    (here : ring[i]? = some last) (next : Following (fun a => a ∈ ring) (some last) k) :
    ring[(i + 1) % ring.length]? = some k := by
  obtain ⟨mem,above | ⟨top,least⟩⟩ := next
  · obtain ⟨last',same,less,first⟩ := above
    cases same
    obtain ⟨j,atJ⟩ := List.mem_iff_getElem?.mp mem
    have after := risingBefore rising here atJ less
    have inside := (List.getElem?_eq_some_iff.mp atJ).1
    have succ : ring[i + 1]? = some ring[i + 1] := List.getElem?_eq_getElem (by omega)
    have rises : compare last ring[i + 1] = .lt := by
      obtain ⟨insideI,rfl⟩ := List.getElem?_eq_some_iff.mp here
      exact List.pairwise_iff_getElem.mp rising i (i + 1) insideI (by omega) (by omega)
    have notLater := leastFirst rising succ atJ (first _ (List.getElem_mem _) rises)
    have same : j = i + 1 := by omega
    rw [Nat.mod_eq_of_lt (by omega), ← same, atJ]
  · obtain ⟨j,atJ⟩ := List.mem_iff_getElem?.mp mem
    obtain ⟨insideI,_⟩ := List.getElem?_eq_some_iff.mp here
    have end' : i + 1 = ring.length := by
      by_contra more
      have inside : i + 1 < ring.length := by omega
      have rises : compare last ring[i + 1] = .lt := by
        obtain ⟨_,rfl⟩ := List.getElem?_eq_some_iff.mp here
        exact List.pairwise_iff_getElem.mp rising i (i + 1) insideI inside (by omega)
      exact top last rfl _ (List.getElem_mem _) rises
    have head : ring[0]? = some ring[0] := List.getElem?_eq_getElem (by omega)
    have zero := leastFirst rising head atJ (least _ (List.getElem_mem _))
    rw [end', Nat.mod_self, ← Nat.le_zero.mp zero, atJ]

theorem rotatesRing {ring : List α} (rising : ring.Pairwise fun a b => compare a b = .lt) {i : Nat} {last : α} {ks : List α}
    (here : ring[i]? = some last) (turns : Rotates (fun a => a ∈ ring) (some last) ks) (t : Nat) (inside : t < ks.length) :
    ks[t]? = ring[(i + 1 + t) % ring.length]? := by
  induction ks generalizing i last t with
  | nil => contradiction
  | cons k ks ih =>
    cases turns with
    | cons next rest =>
      have there := followingNext rising here next
      cases t with
      | zero => exact there.symm
      | succ t =>
        have later := ih there rest t (by simpa using inside)
        rw [List.getElem?_cons_succ, later]
        congr 1
        rw [Nat.add_assoc ((i + 1) % ring.length), Nat.mod_add_mod]
        congr 1
        omega

variable [Std.LawfulEqOrd α]

theorem followingUnique {among : α → Prop} {cursor : Option α} {a b : α} (left : Following among cursor a)
    (right : Following among cursor b) : a = b := by
  have meet {a b : α} (below : (compare a b).isLE) (above : (compare b a).isLE) : a = b :=
    Std.LawfulEqCmp.eq_of_compare (Std.OrientedCmp.isLE_antisymm below above)
  obtain ⟨memA,⟨last,same,aboveA,leastA⟩ | ⟨topA,leastA⟩⟩ := left
  · obtain ⟨memB,⟨last',same',aboveB,leastB⟩ | ⟨topB,_⟩⟩ := right
    · cases same.symm.trans same'
      exact meet (leastA b memB aboveB) (leastB a memA aboveA)
    · exact absurd aboveA (topB last same a memA)
  · obtain ⟨memB,⟨last,same,aboveB,_⟩ | ⟨_,leastB⟩⟩ := right
    · exact absurd aboveB (topA last same b memB)
    · exact meet (leastA b memB) (leastB a memA)

/- As many turns as there are elements take each of them once, wherever the cursor stands. -/
theorem rotationVisits {elements ks : List α} (distinct : elements.Nodup) {cursor : Option α}
    (turns : Rotates (fun a => a ∈ elements) cursor ks) (many : ks.length = elements.length) : ks.Perm elements := by
  let ring := elements.insertionSort fun a b => (compare a b).isLE
  have perm : ring.Perm elements := List.perm_insertionSort _ _
  have sorted : ring.Pairwise fun a b => (compare a b).isLE := OrderedMap.sortedByKey id elements
  have rising : ring.Pairwise fun a b => compare a b = .lt := by
    refine (sorted.and (perm.nodup_iff.mpr distinct)).imp ?_
    rintro a b ⟨below,differ⟩
    cases order : compare a b with
    | lt => rfl
    | eq => exact absurd (Std.LawfulEqCmp.eq_of_compare order) differ
    | gt =>
      rw [order] at below
      contradiction
  have same : (fun a => a ∈ elements) = fun a => a ∈ ring := funext fun a => propext perm.mem_iff.symm
  rw [same] at turns
  rw [← perm.length_eq] at many
  refine List.Perm.trans ?_ perm
  cases turns with
  | nil => exact (List.length_eq_zero_iff.mp many.symm).symm ▸ List.Perm.refl _
  | @cons _ k ks first rest =>
    obtain ⟨i,atI⟩ := List.mem_iff_getElem?.mp first.1
    have inside := (List.getElem?_eq_some_iff.mp atI).1
    have turned : k :: ks = ring.rotate i := by
      refine List.ext_getElem? fun t => ?_
      by_cases within : t < ring.length
      · rw [List.getElem?_rotate within]
        cases t with
        | zero => rw [Nat.zero_add, Nat.mod_eq_of_lt inside, atI]; rfl
        | succ t =>
          have at' := rotatesRing rising atI rest t (by rw [List.length_cons] at many; omega)
          rw [List.getElem?_cons_succ, at']
          congr 2
          omega
      · rw [List.getElem?_eq_none (by omega), List.getElem?_eq_none (by rw [List.length_rotate]; omega)]
    rw [turned]
    exact List.rotate_perm ring i

end Rotation

section Counters
variable {α : Type} {cap : Nat} {elements ks : List α} {count count' : α → Nat}

def Even (elements : List α) (count : α → Nat) : Prop := ∀ a ∈ elements, ∀ b ∈ elements, count a ≤ count b + 1

def served (elements : List α) (count : α → Nat) : Nat := (elements.map count).sum

theorem leastServed {m : Nat} (least : ∀ a ∈ elements, m ≤ count a) : elements.length * m ≤ served elements count := by
  have bound := List.card_nsmul_le_sum (elements.map count) m (by simpa using least)
  rwa [List.length_map, smul_eq_mul] at bound

theorem mostServed {m : Nat} (most : ∀ a ∈ elements, count a ≤ m) : served elements count ≤ elements.length * m := by
  have bound := List.sum_le_card_nsmul (elements.map count) m (by simpa using most)
  rwa [List.length_map, smul_eq_mul] at bound

theorem fullServed (most : ∀ a ∈ elements, count a ≤ cap - 1) (full : elements.length * (cap - 1) ≤ served elements count) :
    ∀ a ∈ elements, count a = cap - 1 := by
  induction elements with
  | nil => simp
  | cons e rest ih =>
    obtain ⟨here,later⟩ := List.forall_mem_cons.mp most
    have sum : served (e :: rest) count = count e + served rest count := by simp [served]
    have bound := mostServed later
    rw [List.length_cons, Nat.succ_mul] at full
    refine List.forall_mem_cons.mpr ⟨by omega,ih later (by omega)⟩

variable [DecidableEq α]

/- Each turn goes to an element with the least count; the counter starts over at `cap`. -/
inductive Serves (cap : Nat) (elements : List α) : (α → Nat) → List α → (α → Nat) → Prop
  | nil {count : α → Nat} : Serves cap elements count [] count
  | cons {count count' : α → Nat} {k : α} {ks : List α} : k ∈ elements → (∀ a ∈ elements, count k ≤ count a) →
      Serves cap elements (Function.update count k ((count k + 1) % cap)) ks count' → Serves cap elements count (k :: ks) count'

theorem servedUpdate (distinct : elements.Nodup) {k : α} (mem : k ∈ elements) (v : Nat) :
    served elements (Function.update count k v) + count k = served elements count + v := by
  obtain ⟨before,after,rfl⟩ := List.append_of_mem mem
  have fresh := List.nodup_middle.mp distinct
  have other : ∀ a ∈ before ++ after, a ≠ k := fun a here same => (List.nodup_cons.mp fresh).1 (same ▸ here)
  have left : before.map (Function.update count k v) = before.map count :=
    List.map_congr_left fun a here => Function.update_of_ne (other a (List.mem_append_left _ here)) v count
  have right : after.map (Function.update count k v) = after.map count :=
    List.map_congr_left fun a here => Function.update_of_ne (other a (List.mem_append_right _ here)) v count
  simp only [served, List.map_append, List.map_cons, List.sum_append, List.sum_cons, left, right, Function.update_self]
  omega

theorem evenStep (even : Even elements count) {k : α} (least : ∀ a ∈ elements, count k ≤ count a) :
    Even elements (Function.update count k (count k + 1)) := by
  intro a memA b memB
  have lowA := least a memA
  have lowB := least b memB
  have near := even a memA b memB
  by_cases atA : a = k
  · by_cases atB : b = k
    · rw [atA, atB]
      omega
    · rw [atA, Function.update_self, Function.update_of_ne atB]
      omega
  · by_cases atB : b = k
    · subst atB
      rw [Function.update_of_ne atA, Function.update_self]
      omega
    · rw [Function.update_of_ne atA, Function.update_of_ne atB]
      exact near

/- While no counter can reach its end, every turn counts and the counts stay level. -/
theorem servesEven (distinct : elements.Nodup) (turns : Serves cap elements count ks count') (even : Even elements count)
    (room : served elements count + ks.length ≤ elements.length * (cap - 1)) :
    Even elements count' ∧ served elements count' = served elements count + ks.length := by
  induction turns with
  | nil => exact ⟨even,rfl⟩
  | @cons count count' k ks mem least _ ih =>
    rw [List.length_cons] at room ⊢
    have low := leastServed least
    have inside : count k < cap - 1 := by
      by_contra full
      have all := Nat.mul_le_mul_left elements.length (not_lt.mp full)
      omega
    have exact' : (count k + 1) % cap = count k + 1 := Nat.mod_eq_of_lt (by omega)
    rw [exact'] at ih
    have sum : served elements (Function.update count k (count k + 1)) + count k = served elements count + (count k + 1) :=
      servedUpdate distinct mem _
    obtain ⟨level,total⟩ := ih (evenStep even least) (by omega)
    exact ⟨level,by omega⟩

/- The first turn after that makes one counter start over while all others are at their end. -/
theorem servesUneven (distinct : elements.Nodup) (several : 1 < elements.length) (large : 2 < cap)
    (full : ∀ a ∈ elements, count a = cap - 1) {k : α} (turns : Serves cap elements count [k] count') : ¬ Even elements count' := by
  cases turns with
  | cons mem _ rest =>
    cases rest
    obtain ⟨b,memB,differ⟩ : ∃ b ∈ elements, b ≠ k := by
      by_contra none'
      push Not at none'
      have all : elements ⊆ [k] := fun b here => by simpa using none' b here
      have few := (distinct.subperm all).length_le
      rw [List.length_singleton] at few
      omega
    intro even
    have near := even b memB k mem
    have restart : (count k + 1) % cap = 0 := by
      rw [full k mem, Nat.sub_add_cancel (by omega), Nat.mod_self]
    rw [Function.update_of_ne differ, Function.update_self, restart, full b memB] at near
    omega

end Counters
end CadsTunnel.FairChoice
