import Mathlib

/-! The next instant at which a periodic state changes. If the state can only change at
the marks of one period and their repetitions, the first repetitions after now are all
the candidates there are, and the least of them at which the state differs is the next
change. -/
namespace CadsTunnel.PeriodicFlips

section Flips
variable {State : Type} {f : Int → State} {period : Int} {marks : List Int}

/- The instants after now at which the state is another one. -/
def Changes (f : Int → State) (now : Int) : Set Int := {t | now < t ∧ f t ≠ f now}

/- The state repeats, and changes from one instant to the next only at a mark. -/
structure Marked (f : Int → State) (period : Int) (marks : List Int) : Prop where
  positive : 0 < period
  periodic : ∀ t, f (t + period) = f t
  marked : ∀ t, f t ≠ f (t - 1) → ∃ m ∈ marks, period ∣ t - m

/- The first repetition of a mark after now. -/
structure NextMark (period now mark next : Int) : Prop where
  later : now < next
  first : next ≤ now + period
  repeats : period ∣ next - mark

theorem changesAgain (m : Marked f period marks) (t : Int) (k : Nat) : f (t + k * period) = f t := by
  induction k with
  | zero => simp
  | succ k ih =>
    rw [← ih, ← m.periodic (t + k * period)]
    push_cast
    ring_nf

theorem leastExists {now : Int} (some : (Changes f now).Nonempty) : ∃ t, IsLeast (Changes f now) t := by
  obtain ⟨t,change,least⟩ := Int.exists_least_of_bdd (P := fun t => t ∈ Changes f now) ⟨now,fun _ change => change.1.le⟩ some
  exact ⟨t,change,fun _ => least _⟩

theorem nextMarkUnique {now mark a b : Int} (left : NextMark period now mark a) (right : NextMark period now mark b) : a = b := by
  obtain ⟨k,apart⟩ : period ∣ a - b := by
    have both := left.repeats.sub right.repeats
    rwa [sub_sub_sub_cancel_right] at both
  have laterA := left.later
  have firstA := left.first
  have laterB := right.later
  have firstB := right.first
  have low : -1 < k := by
    by_contra small
    nlinarith
  have high : k < 1 := by
    by_contra large
    nlinarith
  have none : k = 0 := by omega
  rw [none, mul_zero] at apart
  omega

/- The least change is the first repetition of some mark. -/
theorem leastMarked (m : Marked f period marks) {now t : Int} (least : IsLeast (Changes f now) t) :
    ∃ mark ∈ marks, NextMark period now mark t := by
  obtain ⟨⟨later,differs⟩,lower⟩ := least
  have before : f (t - 1) = f now := by
    by_contra other
    by_cases reached : now < t - 1
    · have := lower ⟨reached,other⟩
      omega
    · have : t - 1 = now := by omega
      rw [this] at other
      exact other rfl
  obtain ⟨mark,mem,repeats⟩ := m.marked t (before ▸ differs)
  refine ⟨mark,mem,later,?_,repeats⟩
  by_contra far
  have back : f (t - period) = f t := by
    have again := m.periodic (t - period)
    rw [Int.sub_add_cancel] at again
    exact again.symm
  have earlier : t - period ∈ Changes f now := ⟨by omega,back ▸ differs⟩
  have := lower earlier
  have := m.positive
  omega

/- Searching the ascending candidates for the first one at which the state differs. -/
theorem searchLeast [DecidableEq State] (m : Marked f period marks) {now : Int} {candidates : List Int}
    (ascending : candidates.Pairwise (· ≤ ·)) (all : ∀ t, t ∈ candidates ↔ ∃ mark ∈ marks, NextMark period now mark t) (t : Int) :
    candidates.find? (fun t => decide (f t ≠ f now)) = some t ↔ IsLeast (Changes f now) t := by
  have sound : ∀ t, candidates.find? (fun t => decide (f t ≠ f now)) = some t → IsLeast (Changes f now) t := by
    intro t found
    obtain ⟨differs,before,after,split,passed⟩ := List.find?_eq_some_iff_append.mp found
    obtain ⟨_,_,next⟩ := (all t).mp (List.mem_of_find?_eq_some found)
    have change : t ∈ Changes f now := ⟨next.later,by simpa using differs⟩
    obtain ⟨least,isLeast⟩ := leastExists ⟨t,change⟩
    have candidate := (all least).mpr (leastMarked m isLeast)
    rw [split, List.mem_append, List.mem_cons] at candidate
    rcases candidate with early | rfl | late
    · exact absurd isLeast.1.2 (by simpa using passed least early)
    · exact isLeast
    · rw [split] at ascending
      have ordered := (List.pairwise_cons.mp (List.pairwise_append.mp ascending).2.1).1 least late
      exact le_antisymm ordered (isLeast.2 change) ▸ isLeast
  refine ⟨sound t,?_⟩
  intro least
  have candidate := (all t).mpr (leastMarked m least)
  have some := List.find?_isSome (p := fun t => decide (f t ≠ f now)) |>.mpr ⟨t,candidate,by simpa using least.1.2⟩
  obtain ⟨u,found⟩ := Option.isSome_iff_exists.mp some
  rw [found, (sound u found).unique least]

theorem searchNone [DecidableEq State] (m : Marked f period marks) {now : Int} {candidates : List Int}
    (ascending : candidates.Pairwise (· ≤ ·)) (all : ∀ t, t ∈ candidates ↔ ∃ mark ∈ marks, NextMark period now mark t) :
    candidates.find? (fun t => decide (f t ≠ f now)) = none ↔ ∀ t, now < t → f t = f now := by
  constructor
  · intro none t later
    by_contra differs
    obtain ⟨least,isLeast⟩ := @leastExists _ f now ⟨t,later,differs⟩
    rw [(searchLeast m ascending all least).mpr isLeast] at none
    cases none
  · intro constant
    rw [Option.eq_none_iff_forall_ne_some]
    intro t found
    have change := ((searchLeast m ascending all t).mp found).1
    exact change.2 (constant t change.1)

/- An answer that is right when it names an instant and right when it names none decides both questions. -/
theorem answerExact {now : Int} {answer : Option Int} (named : ∀ t, answer = some t → IsLeast (Changes f now) t)
    (unnamed : answer = none → ∀ t, now < t → f t = f now) :
    (∀ t, answer = some t ↔ IsLeast (Changes f now) t) ∧ (answer = none ↔ ∀ t, now < t → f t = f now) := by
  cases answer with
  | none =>
    have constant := unnamed rfl
    refine ⟨fun t => ⟨named t,fun least => ?_⟩,⟨fun _ => constant,fun _ => rfl⟩⟩
    exact absurd (constant t least.1.1) least.1.2
  | some u =>
    have least := named u rfl
    refine ⟨fun t => ⟨named t,fun other => congrArg some (least.unique other)⟩,⟨unnamed,fun constant => ?_⟩⟩
    exact absurd (constant u least.1.1) least.1.2

/- A state that does not change after now never changes at all. -/
theorem constantAlways (m : Marked f period marks) {now : Int} (constant : ∀ t, now < t → f t = f now) (t : Int) : f t = f now := by
  have positive := m.positive
  obtain ⟨k,ahead⟩ : ∃ k : Nat, now < t + k * period := by
    refine ⟨(now - t).toNat + 1,?_⟩
    have : ((now - t).toNat + 1 : Int) ≤ ((now - t).toNat + 1) * period := by nlinarith
    push_cast
    omega
  rw [← changesAgain m t k]
  exact constant _ ahead

end Flips
end CadsTunnel.PeriodicFlips
