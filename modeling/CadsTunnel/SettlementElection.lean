import CadsTunnel.OrderedMap
import CadsTunnel.Quorum
import CadsTunnel.SettlementObjects

/-! The leader election. The valid votes of a term are grouped into each voter's
set of choices, a voter with exactly one choice counts for it, and the first
candidate with a strict majority of the member list is elected. -/
namespace CadsTunnel.Settlement
open Words OrderedMap Quorum
open Std (ExtTreeMap ExtTreeSet)

/- The filter of the counting loop, on the set of members. -/
def Vote.counts (crypto : Crypto) (memberSet : BTreeSet Account) (term : UInt64) (v : Vote) : Bool :=
  !(v.term != term || !memberSet.contains v.voter || !memberSet.contains v.candidate || !v.verify crypto)

def addChoice (choices : BTreeMap Account (BTreeSet Account)) (voter candidate : Account) :
    BTreeMap Account (BTreeSet Account) :=
  choices.insert voter ((choices[voter]?.getD ∅).insert candidate)

def voterChoices (crypto : Crypto) (votes : List Vote) (members : List Account) (term : UInt64) :
    BTreeMap Account (BTreeSet Account) :=
  let memberSet : BTreeSet Account := .ofList members compare
  votes.foldl (fun choices v => if v.counts crypto memberSet term then addChoice choices v.voter v.candidate else choices) ∅

/- A voter with two or more choices equivocates and is not counted at all. -/
def tallyChoices (tally : BTreeMap Account Nat) (choices : BTreeSet Account) : BTreeMap Account Nat :=
  match choices.toList with
  | [candidate] => tally.insert candidate (tally[candidate]?.getD 0 + 1)
  | _ => tally

def tally (crypto : Crypto) (votes : List Vote) (members : List Account) (term : UInt64) : BTreeMap Account Nat :=
  ((voterChoices crypto votes members term).toList.map Prod.snd).foldl tallyChoices ∅

def electLeader (crypto : Crypto) (votes : List Vote) (members : List Account) (term : UInt64) : Option Account :=
  let needed := members.length / 2 + 1
  ((tally crypto votes members term).toList.find? (fun entry => decide (needed ≤ entry.2))).map Prod.fst

/- Who chose whom, as the set of votes says it. -/
def Chose (crypto : Crypto) (votes : List Vote) (members : List Account) (term : UInt64) (voter candidate : Account) : Prop :=
  ∃ v ∈ votes, v.term = term ∧ voter ∈ members ∧ candidate ∈ members ∧ v.verify crypto = true ∧
    v.voter = voter ∧ v.candidate = candidate

theorem countsIff {crypto : Crypto} {members : List Account} {term : UInt64} {v : Vote} :
    v.counts crypto (.ofList members compare) term = true ↔
      v.term = term ∧ v.voter ∈ members ∧ v.candidate ∈ members ∧ v.verify crypto = true := by
  simp [Vote.counts, and_assoc]

theorem addChoiceIff (choices : BTreeMap Account (BTreeSet Account)) (voter candidate u c : Account) :
    c ∈ (addChoice choices voter candidate)[u]?.getD ∅ ↔
      (u = voter ∧ c = candidate) ∨ c ∈ choices[u]?.getD ∅ := by
  rw [addChoice, lookupInsert]
  by_cases same : u = voter
  · subst u
    simp [ExtTreeSet.mem_insert, @eq_comm Account candidate c]
  · simp [same]

theorem choicesFold {crypto : Crypto} {memberSet : BTreeSet Account} {term : UInt64} (votes : List Vote)
    (choices : BTreeMap Account (BTreeSet Account)) (u c : Account) :
    c ∈ (votes.foldl (fun choices v =>
        if v.counts crypto memberSet term then addChoice choices v.voter v.candidate else choices) choices)[u]?.getD ∅ ↔
      c ∈ choices[u]?.getD ∅ ∨ ∃ v ∈ votes, v.counts crypto memberSet term = true ∧ v.voter = u ∧ v.candidate = c := by
  induction votes generalizing choices with
  | nil => simp
  | cons v rest ih =>
    rw [List.foldl_cons, ih]
    split
    · rename_i counted
      rw [addChoiceIff]
      constructor
      · intro chosen
        rcases chosen with (⟨rfl,rfl⟩ | old) | ⟨w,mem,found⟩
        · exact .inr ⟨v,List.mem_cons_self,counted,rfl,rfl⟩
        · exact .inl old
        · exact .inr ⟨w,List.mem_cons_of_mem _ mem,found⟩
      · intro chosen
        rcases chosen with old | ⟨w,mem,found⟩
        · exact .inl (.inr old)
        · rcases List.mem_cons.mp mem with rfl | mem
          · exact .inl (.inl ⟨found.2.1.symm,found.2.2.symm⟩)
          · exact .inr ⟨w,mem,found⟩
    · rename_i ignored
      constructor
      · intro chosen
        rcases chosen with old | ⟨w,mem,found⟩
        · exact .inl old
        · exact .inr ⟨w,List.mem_cons_of_mem _ mem,found⟩
      · intro chosen
        rcases chosen with old | ⟨w,mem,found⟩
        · exact .inl old
        · rcases List.mem_cons.mp mem with rfl | mem
          · exact absurd found.1 ignored
          · exact .inr ⟨w,mem,found⟩

theorem choicesIff (crypto : Crypto) (votes : List Vote) (members : List Account) (term : UInt64) (u c : Account) :
    c ∈ (voterChoices crypto votes members term)[u]?.getD ∅ ↔ Chose crypto votes members term u c := by
  rw [voterChoices, choicesFold]
  simp only [countsIff, Chose, ExtTreeMap.getElem?_empty, Option.getD_none]
  constructor
  · intro chosen
    rcases chosen with absent | ⟨v,mem,⟨inTerm,voter,candidate,signed⟩,rfl,rfl⟩
    · simp at absent
    · exact ⟨v,mem,inTerm,voter,candidate,signed,rfl,rfl⟩
  · intro chosen
    obtain ⟨v,mem,inTerm,voter,candidate,signed,rfl,rfl⟩ := chosen
    exact .inr ⟨v,mem,⟨inTerm,voter,candidate,signed⟩,rfl,rfl⟩

theorem tallyFold (sets : List (BTreeSet Account)) (tally : BTreeMap Account Nat) (c : Account) :
    (sets.foldl tallyChoices tally)[c]?.getD 0 =
      tally[c]?.getD 0 + sets.countP (fun choices => decide (choices.toList = [c])) := by
  induction sets generalizing tally with
  | nil => simp
  | cons choices rest ih =>
    rw [List.foldl_cons, ih, List.countP_cons, tallyChoices]
    split
    · rename_i candidate only
      rw [lookupInsert, only]
      by_cases same : c = candidate
      · subst c
        simp
        omega
      · simp [same, eq_comm]
    · rename_i several
      have other : ¬ choices.toList = [c] := several c
      simp [other]

/- The voters the tally counts for a candidate. -/
def backers (crypto : Crypto) (votes : List Vote) (members : List Account) (term : UInt64) (c : Account) : List Account :=
  ((voterChoices crypto votes members term).toList.filter (fun entry => decide (entry.2.toList = [c]))).map Prod.fst

theorem tallyBackers (crypto : Crypto) (votes : List Vote) (members : List Account) (term : UInt64) (c : Account) :
    (tally crypto votes members term)[c]?.getD 0 = (backers crypto votes members term c).length := by
  rw [tally, tallyFold, backers, List.length_map, List.countP_map, List.countP_eq_length_filter]
  simp [Function.comp_def]

theorem soleChoice {choices : BTreeSet Account} {c : Account} :
    choices.toList = [c] ↔ c ∈ choices ∧ ∀ d ∈ choices, d = c := by
  constructor
  · intro only
    simp [← ExtTreeSet.mem_toList, only]
  · intro only
    obtain ⟨mem,all⟩ := only
    have nodup : choices.toList.Nodup := choices.distinct_toList.imp fun different same => by
      rw [same] at different
      exact different Std.compare_self
    refine List.perm_singleton.mp ?_
    refine (List.perm_ext_iff_of_nodup nodup (List.nodup_singleton c)).mpr fun d => ?_
    rw [ExtTreeSet.mem_toList, List.mem_singleton]
    exact ⟨all d,fun same => same ▸ mem⟩

theorem backersIff (crypto : Crypto) (votes : List Vote) (members : List Account) (term : UInt64) (c u : Account) :
    u ∈ backers crypto votes members term c ↔ Backs (Chose crypto votes members term) u c := by
  simp only [Backs, ← choicesIff]
  simp only [backers, List.mem_map, List.mem_filter, decide_eq_true_eq, Prod.exists, exists_and_right, exists_eq_right,
    ExtTreeMap.mem_toList_iff_getElem?_eq_some, soleChoice]
  constructor
  · intro backs
    obtain ⟨choices,found,mem,all⟩ := backs
    rw [found]
    exact ⟨mem,all⟩
  · intro ⟨mem,all⟩
    cases found : (voterChoices crypto votes members term)[u]? with
    | none => simp [found] at mem
    | some choices =>
      rw [found] at mem all
      exact ⟨choices,rfl,mem,all⟩

theorem backersNodup (crypto : Crypto) (votes : List Vote) (members : List Account) (term : UInt64) (c : Account) :
    (backers crypto votes members term c).Nodup := by
  refine List.Nodup.sublist (List.filter_sublist.map Prod.fst) ?_
  exact keysNodup (voterChoices crypto votes members term)

/- The count of the tally against the majority of the member list is the abstract election. -/
theorem tallyWins (crypto : Crypto) (votes : List Vote) (members : List Account) (term : UInt64) (c : Account) :
    majority members ≤ (tally crypto votes members term)[c]?.getD 0 ↔ Wins members (Chose crypto votes members term) c := by
  have nodup := backersNodup crypto votes members term c
  rw [tallyBackers]
  constructor
  · intro large
    refine ⟨(backers crypto votes members term c).toFinset,fun u mem => ?_,?_⟩
    · have backs := (backersIff crypto votes members term c u).mp (List.mem_toFinset.mp mem)
      obtain ⟨_,_,_,member,_⟩ := backs.1
      exact ⟨member,backs⟩
    · rw [List.toFinset_card_of_nodup nodup]
      exact large
  · intro won
    obtain ⟨supporters,inside,large⟩ := won
    have counted : supporters ⊆ (backers crypto votes members term c).toFinset := fun u mem =>
      List.mem_toFinset.mpr ((backersIff crypto votes members term c u).mpr (inside u mem).2)
    have bound := Finset.card_le_card counted
    rw [List.toFinset_card_of_nodup nodup] at bound
    exact large.trans bound

theorem electedIff (crypto : Crypto) (votes : List Vote) (members : List Account) (term : UInt64) (c : Account) :
    electLeader crypto votes members term = some c ↔ Wins members (Chose crypto votes members term) c := by
  simp only [electLeader, Option.map_eq_some_iff]
  generalize search : (tally crypto votes members term).toList.find? (fun entry =>
    decide (members.length / 2 + 1 ≤ entry.2)) = result
  have wins : ∀ entry, result = some entry → Wins members (Chose crypto votes members term) entry.1 := by
    intro entry met
    obtain ⟨candidate,count⟩ := entry
    rw [met] at search
    have mem := ExtTreeMap.mem_toList_iff_getElem?_eq_some.mp (List.mem_of_find?_eq_some search)
    have large := List.find?_some search
    rw [← tallyWins, mem]
    exact of_decide_eq_true large
  constructor
  · intro elected
    obtain ⟨entry,found,rfl⟩ := elected
    exact wins entry found
  · intro won
    have large := (tallyWins crypto votes members term c).mpr won
    cases result with
    | some entry => exact ⟨entry,rfl,winnerUnique (wins entry rfl) won⟩
    | none =>
      -- A majority is at least one vote, so the candidate has an entry that the search would have met.
      cases found : (tally crypto votes members term)[c]? with
      | none =>
        rw [found, Option.getD_none, majority] at large
        omega
      | some count =>
        have missed := List.find?_eq_none.mp search (c,count) (ExtTreeMap.mem_toList_iff_getElem?_eq_some.mpr found)
        rw [found] at large
        exact absurd (decide_eq_true large) missed

theorem choseGrows {crypto : Crypto} {first later : List Vote} {members : List Account} {term : UInt64}
    (more : ∀ v ∈ first, v ∈ later) (u c : Account) (chose : Chose crypto first members term u c) :
    Chose crypto later members term u c := by
  obtain ⟨v,mem,cast⟩ := chose
  exact ⟨v,more v mem,cast⟩

theorem electionUnchanged {crypto : Crypto} {votes votes' : List Vote} {members : List Account} {term : UInt64}
    (same : ∀ v, v ∈ votes ↔ v ∈ votes') :
    electLeader crypto votes members term = electLeader crypto votes' members term := by
  have chose : Chose crypto votes members term = Chose crypto votes' members term := by
    funext u c
    exact propext ⟨choseGrows (fun v => (same v).mp) u c,choseGrows (fun v => (same v).mpr) u c⟩
  apply Option.ext
  intro c
  rw [electedIff, electedIff, chose]

/- No member signed votes for two candidates of the electorate in the term. -/
def NoEquivocation (crypto : Crypto) (votes : List Vote) (members : List Account) (term : UInt64) : Prop :=
  ∀ v ∈ votes, ∀ w ∈ votes, v.voter ∈ members → v.voter = w.voter → v.term = term → w.term = term →
    v.verify crypto = true → w.verify crypto = true → v.candidate = w.candidate

theorem electionSafe (crypto : Crypto) (votes : List Vote) (members : List Account) (term : UInt64) :
    (∀ votes', (∀ v, v ∈ votes' ↔ v ∈ votes) →
      electLeader crypto votes' members term = electLeader crypto votes members term) ∧
    (∀ c d : Account, members.length / 2 + 1 ≤ (tally crypto votes members term)[c]?.getD 0 →
      members.length / 2 + 1 ≤ (tally crypto votes members term)[d]?.getD 0 → c = d) ∧
    (∀ more, votes ⊆ more → ∀ leader, electLeader crypto votes members term = some leader →
      electLeader crypto more members term = some leader ∨ electLeader crypto more members term = none) ∧
    (NoEquivocation crypto votes members term → ∀ seen seen', seen ⊆ votes → seen' ⊆ votes → ∀ leader leader',
      electLeader crypto seen members term = some leader → electLeader crypto seen' members term = some leader' →
      leader = leader') := by
  refine ⟨fun votes' same => electionUnchanged same,?_,?_,?_⟩
  · intro c d first second
    exact winnerUnique ((tallyWins crypto votes members term c).mp first) ((tallyWins crypto votes members term d).mp second)
  · intro more grows leader elected
    cases later : electLeader crypto more members term with
    | none => exact .inr rfl
    | some other =>
      have kept := winnerKept (choseGrows (fun v mem => grows mem))
        ((electedIff crypto votes members term leader).mp elected) ((electedIff crypto more members term other).mp later)
      exact .inl (congrArg some kept.symm)
  · intro honest seen seen' fewer fewer' leader leader' elected elected'
    refine winnersAgree ?_ ((electedIff crypto seen members term leader).mp elected)
      ((electedIff crypto seen' members term leader').mp elected')
    intro u member first second
    obtain ⟨⟨v,mem,inTerm,_,_,signed,rfl,rfl⟩,_⟩ := first
    obtain ⟨⟨w,mem',inTerm',_,_,signed',same,rfl⟩,_⟩ := second
    exact honest v (fewer mem) w (fewer' mem') member same.symm inTerm inTerm' signed signed'

/- Two of three writers vote for the second one in term 7. -/
def writers : List Account := [.replicate 32 1,.replicate 32 2,.replicate 32 3]
def ballot (voter : UInt8) (candidate : UInt8) : Vote := ⟨7,.replicate 32 candidate,.replicate 32 voter,.replicate 64 0⟩
def ballots : List Vote := [ballot 1 2,ballot 3 2]

theorem electionSafeThreeWriters :
    let crypto : Crypto := ⟨fun _ _ _ => true,fun _ => .replicate 32 0⟩
    electLeader crypto ballots writers 7 = some (.replicate 32 2) ∧
    electLeader crypto [ballot 3 2,ballot 1 2,ballot 3 2] writers 7 = electLeader crypto ballots writers 7 ∧
    (∀ d : Account, writers.length / 2 + 1 ≤ (tally crypto ballots writers 7)[d]?.getD 0 → .replicate 32 2 = d) ∧
    (electLeader crypto (ballot 1 3 :: ballots) writers 7 = some (.replicate 32 2) ∨
      electLeader crypto (ballot 1 3 :: ballots) writers 7 = none) ∧
    (∀ seen ⊆ ballots, ∀ leader, electLeader crypto seen writers 7 = some leader → .replicate 32 2 = leader) := by
  intro crypto
  have elected : electLeader crypto ballots writers 7 = some (.replicate 32 2) := by decide +kernel
  have honest : NoEquivocation crypto ballots writers 7 := by
    intro v mem w mem' _ _ _ _ _ _
    simp only [ballots, List.mem_cons, List.not_mem_nil, or_false] at mem mem'
    rcases mem with rfl | rfl <;> rcases mem' with rfl | rfl <;> rfl
  obtain ⟨same,unique,kept,agreed⟩ := electionSafe crypto ballots writers 7
  refine ⟨elected,same _ ?_,?_,kept _ (List.subset_cons_self _ _) _ elected,?_⟩
  · intro v
    simp only [ballots, List.mem_cons, List.not_mem_nil, or_false]
    tauto
  · exact fun d => unique _ d (by decide +kernel)
  · exact fun seen fewer leader => agreed honest ballots seen (List.Subset.refl _) fewer _ leader elected

end CadsTunnel.Settlement
