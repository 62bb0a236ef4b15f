import Mathlib

/-! Elections by strict majority of a fixed list of members. A voter backs a
candidate when it is the voter's only choice; a repeated member makes a majority
harder to reach, never easier. Two majorities share a voter, so two elections
whose voters do not back different candidates have at most one winner. -/
namespace CadsTunnel.Quorum

variable {Voter Candidate : Type}

def majority (members : List Voter) : Nat := members.length / 2 + 1

def Backs (chose : Voter → Candidate → Prop) (voter : Voter) (candidate : Candidate) : Prop :=
  chose voter candidate ∧ ∀ other, chose voter other → other = candidate

def Wins (members : List Voter) (chose : Voter → Candidate → Prop) (candidate : Candidate) : Prop :=
  ∃ backers : Finset Voter, (∀ voter ∈ backers, voter ∈ members ∧ Backs chose voter candidate) ∧
    majority members ≤ backers.card

theorem majoritiesMeet [DecidableEq Voter] {members : List Voter} {a b : Finset Voter} (inA : ∀ voter ∈ a, voter ∈ members)
    (inB : ∀ voter ∈ b, voter ∈ members) (largeA : majority members ≤ a.card) (largeB : majority members ≤ b.card) :
    ∃ voter ∈ a, voter ∈ b := by
  by_contra apart
  push Not at apart
  have disjoint : Disjoint a b := Finset.disjoint_left.mpr apart
  have inside : a ∪ b ⊆ members.toFinset := by
    intro voter mem
    rcases Finset.mem_union.mp mem with left | right
    · exact List.mem_toFinset.mpr (inA voter left)
    · exact List.mem_toFinset.mpr (inB voter right)
  have count := Finset.card_le_card inside
  rw [Finset.card_union_of_disjoint disjoint] at count
  have bound := members.toFinset_card_le
  simp only [majority] at largeA largeB
  omega

theorem winnersAgree {members : List Voter} {first later : Voter → Candidate → Prop} {c d : Candidate}
    (loyal : ∀ voter ∈ members, Backs first voter c → Backs later voter d → c = d)
    (won : Wins members first c) (wins : Wins members later d) : c = d := by
  classical
  obtain ⟨a,inA,largeA⟩ := won
  obtain ⟨b,inB,largeB⟩ := wins
  obtain ⟨voter,left,right⟩ := majoritiesMeet (fun v mem => (inA v mem).1) (fun v mem => (inB v mem).1) largeA largeB
  exact loyal voter (inA voter left).1 (inA voter left).2 (inB voter right).2

theorem winnerUnique {members : List Voter} {chose : Voter → Candidate → Prop} {c d : Candidate}
    (won : Wins members chose c) (wins : Wins members chose d) : c = d :=
  winnersAgree (fun _ _ first later => later.2 c first.1) won wins

/- More choices can only disqualify voters. -/
theorem winnerKept {members : List Voter} {first later : Voter → Candidate → Prop} {c d : Candidate}
    (grows : ∀ voter candidate, first voter candidate → later voter candidate)
    (won : Wins members first c) (wins : Wins members later d) : c = d :=
  winnersAgree (fun voter _ before after => after.2 c (grows voter c before.1)) won wins

end CadsTunnel.Quorum
