import Mathlib

/-! What a list of spans leaves uncovered. A sweep over the spans by their start remembers the
latest end; that end and the next start are a gap. Every uncovered stretch lies in a gap, and a
gap is uncovered itself. The ends of spans are times, the instants between them come from a
dense order. -/
namespace CadsTunnel.UncoveredGaps

structure Span (Time : Type) where
  start : Time
  stop : Time

def gaps {Time : Type} [LinearOrder Time] (horizon : Time) : Time → List (Span Time) → List (Span Time)
  | covered, [] => [⟨covered,horizon⟩]
  | covered, s :: rest => ⟨covered,s.start⟩ :: gaps horizon (max covered s.stop) rest

/- No span has an instant between the two in common. -/
def Uncovered {Time Instant : Type} [LinearOrder Instant] (place : Time → Instant) (spans : List (Span Time)) (a b : Instant) : Prop :=
  ∀ s ∈ spans, ∀ t, a < t → t < b → ¬ (place s.start ≤ t ∧ t ≤ place s.stop)

section Gaps
variable {Time Instant : Type} [LinearOrder Time] [LinearOrder Instant] {place : Time → Instant} {horizon : Time}

omit [LinearOrder Time] in
theorem spanApart [DenselyOrdered Instant] {s : Span Time} (proper : place s.start ≤ place s.stop) {a b : Instant} (ahead : a < b) :
    (∀ t, a < t → t < b → ¬ (place s.start ≤ t ∧ t ≤ place s.stop)) ↔ place s.stop ≤ a ∨ b ≤ place s.start := by
  constructor
  · intro misses
    by_contra both
    push Not at both
    obtain ⟨late,early⟩ := both
    rcases le_or_gt (place s.start) a with before | inside
    · obtain ⟨t,above,below⟩ := exists_between (lt_min ahead late)
      exact misses t above (below.trans_le (min_le_left _ _)) ⟨before.trans above.le,below.le.trans (min_le_right _ _)⟩
    · exact misses _ inside early ⟨le_rfl,proper⟩
  · rintro (before | after) t above below ⟨starts,ends⟩
    · exact absurd (ends.trans before) above.not_ge
    · exact absurd (after.trans starts) below.not_ge

/- Behind the latest end so far, an uncovered stretch stays within one gap. -/
theorem uncoveredInGap [DenselyOrdered Instant] (mono : Monotone place) {spans : List (Span Time)} (proper : ∀ s ∈ spans, s.start ≤ s.stop)
    {covered : Time} {a b : Instant} (ahead : a < b) (behind : place covered ≤ a) (ends : b ≤ place horizon) (free : Uncovered place spans a b) :
    ∃ gap ∈ gaps horizon covered spans, place gap.start ≤ a ∧ b ≤ place gap.stop := by
  induction spans generalizing covered with
  | nil => exact ⟨_,List.mem_singleton_self _,behind,ends⟩
  | cons s rest ih =>
    obtain ⟨head,tail⟩ := List.forall_mem_cons.mp proper
    rcases (spanApart (mono head) ahead).mp (free s List.mem_cons_self) with before | after
    · have behind' : place (max covered s.stop) ≤ a := by
        rcases max_choice covered s.stop with same | same
        · rw [same]; exact behind
        · rw [same]; exact before
      obtain ⟨gap,mem,within⟩ := ih tail behind' (fun s mem => free s (List.mem_cons_of_mem _ mem))
      exact ⟨gap,List.mem_cons_of_mem _ mem,within⟩
    · exact ⟨_,List.mem_cons_self,behind,after⟩

/- A gap of spans in the order of their start is uncovered, also by the spans that ended before. -/
theorem gapUncovered {spans : List (Span Time)} (sorted : spans.Pairwise (fun s t => s.start ≤ t.start)) (mono : Monotone place)
    {covered : Time} {before : List (Span Time)} (ended : ∀ s ∈ before, s.stop ≤ covered) {gap : Span Time}
    (mem : gap ∈ gaps horizon covered spans) : covered ≤ gap.start ∧ Uncovered place (before ++ spans) (place gap.start) (place gap.stop) := by
  induction spans generalizing covered before with
  | nil =>
    cases List.mem_singleton.mp mem
    refine ⟨le_rfl,?_⟩
    rintro s inside t above _ ⟨_,ends⟩
    exact absurd (ends.trans (mono (ended s (by simpa using inside)))) above.not_ge
  | cons s rest ih =>
    obtain ⟨first,sorted'⟩ := List.pairwise_cons.mp sorted
    rcases List.mem_cons.mp mem with rfl | later
    · refine ⟨le_rfl,?_⟩
      rintro r inside t above below ⟨starts,ends⟩
      rcases List.mem_append.mp inside with old | new
      · exact absurd (ends.trans (mono (ended r old))) above.not_ge
      · have next : s.start ≤ r.start := by
          rcases List.mem_cons.mp new with rfl | behind
          · exact le_rfl
          · exact first r behind
        exact absurd ((mono next).trans starts) below.not_ge
    · have ended' : ∀ r ∈ before ++ [s], r.stop ≤ max covered s.stop := by
        intro r inside
        rcases List.mem_append.mp inside with old | new
        · exact (ended r old).trans (le_max_left _ _)
        · cases List.mem_singleton.mp new
          exact le_max_right _ _
      obtain ⟨behind,free⟩ := ih sorted' ended' later
      exact ⟨(le_max_left _ _).trans behind,by simpa using free⟩

end Gaps
end CadsTunnel.UncoveredGaps
