import CadsTunnel.OrderedMap

/-! The policy of a declared network: allow rules that match by group and label, and
the mandatory rule that no flow goes down a level. A flow allowed under the
mandatory rule never lowers the rank, so a channel, which is a flow in both
directions, joins agents of one rank only. -/
namespace CadsTunnel.NetworkPolicy
open OrderedMap

structure Agent where
  id : String
  group : String
  label : String
  deriving DecidableEq, Repr

structure Levels where
  order : List String := []
  deriving DecidableEq, Repr

def Levels.rank (l : Levels) (label : String) : Option Nat := l.order.findIdx? (fun level => level = label)

structure Selector where
  group : Option String := none
  label : Option String := none
  deriving DecidableEq, Repr

def Selector.matches (s : Selector) (a : Agent) : Bool :=
  s.group.all (fun g => g = a.group) && s.label.all (fun l => l = a.label)

structure AllowRule where
  sender : Selector
  recipient : Selector
  deriving DecidableEq, Repr

structure Policy where
  levels : Levels := {}
  rules : List AllowRule := []
  macFlowControl : Bool := false
  deriving DecidableEq, Repr

structure Decision where
  allowed : Bool
  reason : String
  deriving DecidableEq, Repr

def Decision.deny (reason : String) : Decision := ⟨false,reason⟩
def Decision.allow (reason : String) : Decision := ⟨true,reason⟩

inductive Verdict where
  | macWriteDown
  | macUnknownLevel
  | ruleAllowed
  | defaultDeny
  deriving DecidableEq, Repr

def Verdict.allowed : Verdict → Bool
  | .ruleAllowed => true
  | _ => false

namespace Policy

def decideByRules (p : Policy) (sender recipient : Agent) : Verdict :=
  if p.rules.any (fun r => r.sender.matches sender && r.recipient.matches recipient) then .ruleAllowed
  else .defaultDeny

/- The mandatory rule comes first: no allow rule is asked about a flow that it denies. -/
def decide (p : Policy) (sender recipient : Agent) : Verdict :=
  if p.macFlowControl then
    match p.levels.rank sender.label, p.levels.rank recipient.label with
    | some rf, some rt => if rf > rt then .macWriteDown else p.decideByRules sender recipient
    | _, _ => .macUnknownLevel
  else p.decideByRules sender recipient

def evaluate (p : Policy) (sender recipient : Agent) : Decision :=
  match p.decide sender recipient with
  | .macWriteDown =>
    .deny (s!"MAC write-down blocked: {sender.id} ({sender.label}) may not initiate a flow to lower level " ++
      s!"{recipient.id} ({recipient.label})")
  | .macUnknownLevel =>
    .deny s!"MAC enabled but a label is not a known level (from={sender.label}, to={recipient.label})"
  | .ruleAllowed =>
    .allow (s!"allowed: an allow-rule permits {sender.id} ({sender.group}/{sender.label}) -> " ++
      s!"{recipient.id} ({recipient.group}/{recipient.label})")
  | .defaultDeny =>
    .deny (s!"default-deny: no allow-rule permits {sender.id} ({sender.group}/{sender.label}) -> " ++
      s!"{recipient.id} ({recipient.group}/{recipient.label})")

def allows (p : Policy) (sender recipient : Agent) : Bool := (p.decide sender recipient).allowed

def mayEstablishChannel (p : Policy) (a b : Agent) : Decision :=
  let ab := p.evaluate a b
  if !ab.allowed then ab
  else
    let ba := p.evaluate b a
    if !ba.allowed then ba
    else .allow s!"allowed: {a.id} and {b.id} may establish a channel (both directions permitted)"

def mayEstablishChannelAllows (p : Policy) (a b : Agent) : Bool := p.allows a b && p.allows b a

theorem evaluateAllowed (p : Policy) (a b : Agent) : (p.evaluate a b).allowed = p.allows a b := by
  rw [evaluate, allows]
  cases p.decide a b <;> rfl

theorem mayEstablishChannelAllowed (p : Policy) (a b : Agent) :
    (p.mayEstablishChannel a b).allowed = p.mayEstablishChannelAllows a b := by
  rw [mayEstablishChannel, mayEstablishChannelAllows, ← evaluateAllowed, ← evaluateAllowed]
  cases there : (p.evaluate a b).allowed with
  | false => simp [there]
  | true =>
    cases back : (p.evaluate b a).allowed with
    | false => simp [back]
    | true => simp [back, Decision.allow]

/- Both agents have a level and the flow does not go down. -/
def Rises (l : Levels) (sender recipient : Agent) : Prop :=
  ∃ rf rt, l.rank sender.label = some rf ∧ l.rank recipient.label = some rt ∧ rf ≤ rt

theorem risesTrans {l : Levels} {a b c : Agent} (first : Rises l a b) (next : Rises l b c) : Rises l a c := by
  obtain ⟨ra,rb,rankA,rankB,low⟩ := first
  obtain ⟨rb',rc,rankB',rankC,high⟩ := next
  have same : rb = rb' := Option.some.inj (rankB.symm.trans rankB')
  exact ⟨ra,rc,rankA,rankC,by omega⟩

theorem allowsRises {p : Policy} {a b : Agent} (mac : p.macFlowControl = true) (allowed : p.allows a b = true) :
    Rises p.levels a b := by
  rw [allows, decide, if_pos mac] at allowed
  cases rankA : p.levels.rank a.label with
  | none => simp [rankA, Verdict.allowed] at allowed
  | some rf =>
    cases rankB : p.levels.rank b.label with
    | none => simp [rankA, rankB, Verdict.allowed] at allowed
    | some rt =>
      simp only [rankA, rankB] at allowed
      split at allowed <;> try contradiction
      rename_i upward
      exact ⟨rf,rt,rankA,rankB,Nat.le_of_not_gt upward⟩

/- Along a chain of allowed flows every agent is at most as high as each later one. -/
theorem chainRises {p : Policy} (mac : p.macFlowControl = true) {flow : List Agent}
    (chain : flow.IsChain (fun a b => p.allows a b = true)) : flow.Pairwise (Rises p.levels) := by
  have rises : flow.IsChain (Rises p.levels) := chain.imp (fun _ _ allowed => allowsRises mac allowed)
  have trans : IsTrans Agent (Rises p.levels) := ⟨fun _ _ _ => risesTrans⟩
  exact List.isChain_iff_pairwise.mp rises

/- A channel flows both ways, so its ends are on one level. -/
def SameLevel (l : Levels) (a b : Agent) : Prop :=
  ∃ r, l.rank a.label = some r ∧ l.rank b.label = some r

theorem bothWaysLevel {l : Levels} {a b : Agent} (there : Rises l a b) (back : Rises l b a) : SameLevel l a b := by
  obtain ⟨ra,rb,rankA,rankB,low⟩ := there
  obtain ⟨rb',ra',rankB',rankA',high⟩ := back
  have sameA : ra = ra' := Option.some.inj (rankA.symm.trans rankA')
  have sameB : rb = rb' := Option.some.inj (rankB.symm.trans rankB')
  have equal : rb = ra := by omega
  exact ⟨ra,rankA,by rw [rankB, equal]⟩

end Policy

/- The two ends of a channel, smaller id first. -/
abbrev Pair := String × String

def Pair.new (a b : String) : Pair := if a ≤ b then (a,b) else (b,a)

theorem pairComm (a b : String) : Pair.new a b = Pair.new b a := by
  rcases lt_trichotomy a b with less | same | more
  · rw [Pair.new, Pair.new, if_pos less.le, if_neg less.not_ge]
  · rw [same]
  · rw [Pair.new, Pair.new, if_neg more.not_ge, if_pos more.le]

theorem pairInOrder {a b : String} (ordered : a ≤ b) : Pair.new a b = (a,b) := if_pos ordered

theorem pairSorted (a b : String) : Pair.new (Pair.new a b).1 (Pair.new a b).2 = Pair.new a b := by
  rcases le_total a b with less | more
  · rw [pairInOrder less, pairInOrder less]
  · rw [pairComm a b, pairInOrder more, pairInOrder more]

theorem pairEnds {a b c d : String} (same : Pair.new a b = Pair.new c d) : a = c ∧ b = d ∨ a = d ∧ b = c := by
  rw [Pair.new, Pair.new] at same
  split at same <;> split at same <;> obtain ⟨left,right⟩ := Prod.mk.inj same
  · exact .inl ⟨left,right⟩
  · exact .inr ⟨left,right⟩
  · exact .inr ⟨right,left⟩
  · exact .inl ⟨right,left⟩

structure Network where
  agents : List Agent := []
  policy : Policy := {}
  deriving DecidableEq, Repr

namespace Network

/- `debug` is the quoted rendering of a string in an error text. -/
def validateFrom (debug : String → String) (seen : List String) : List Agent → Except String Unit
  | [] => .ok ()
  | a :: rest =>
    if a.id ∈ seen then .error ("duplicate agent id: " ++ debug a.id) else validateFrom debug (a.id :: seen) rest

def validate (debug : String → String) (n : Network) : Except String Unit := validateFrom debug [] n.agents

def explain (n : Network) (aId bId : String) : Decision :=
  match n.agents.find? (fun x => x.id = aId), n.agents.find? (fun x => x.id = bId) with
  | some a, some b => n.policy.mayEstablishChannel a b
  | _, _ => .deny s!"not both members of the network: {aId} / {bId}"

def channelsOf (p : Policy) (a : Agent) (out : BTreeSet Pair) (b : Agent) : BTreeSet Pair :=
  if a.id = b.id then out
  else if p.mayEstablishChannelAllows a b then out.insert (Pair.new a.id b.id)
  else out

def channelsFrom (p : Policy) (out : BTreeSet Pair) : List Agent → BTreeSet Pair
  | [] => out
  | a :: rest => channelsFrom p (rest.foldl (channelsOf p a) out) rest

def desiredChannels (n : Network) : BTreeSet Pair := channelsFrom n.policy ∅ n.agents

theorem validatedDistinct {debug : String → String} {seen : List String} {agents : List Agent}
    (ok : validateFrom debug seen agents = .ok ()) :
    (agents.map Agent.id).Nodup ∧ ∀ a ∈ agents, a.id ∉ seen := by
  induction agents generalizing seen with
  | nil => simp
  | cons a rest ih =>
    rw [validateFrom] at ok
    split at ok <;> try contradiction
    rename_i fresh
    obtain ⟨distinct,apart⟩ := ih ok
    simp only [List.mem_cons, not_or] at apart
    refine ⟨List.nodup_cons.mpr ⟨?_,distinct⟩,?_⟩
    · intro again
      obtain ⟨b,mem,same⟩ := List.mem_map.mp again
      exact (apart b mem).1 same
    · intro b mem
      rcases List.mem_cons.mp mem with first | later
      · rw [first]; exact fresh
      · exact (apart b later).2

/- In a validated network an id names one agent. -/
theorem validatedUnique {debug : String → String} {n : Network} (ok : n.validate debug = .ok ()) {a b : Agent}
    (memA : a ∈ n.agents) (memB : b ∈ n.agents) (same : a.id = b.id) : a = b :=
  List.inj_on_of_nodup_map (validatedDistinct ok).1 memA memB same

theorem memChannelsOf {p : Policy} {a b : Agent} {out : BTreeSet Pair} {pair : Pair} :
    pair ∈ channelsOf p a out b ↔
      pair ∈ out ∨ a.id ≠ b.id ∧ p.mayEstablishChannelAllows a b = true ∧ Pair.new a.id b.id = pair := by
  rw [channelsOf]
  split
  · rename_i same
    simp [same]
  · rename_i differ
    split
    · rename_i allowed
      simp [differ, allowed, or_comm]
    · rename_i denied
      simp [denied]

theorem memChannelsFold {p : Policy} {a : Agent} {rest : List Agent} {out : BTreeSet Pair} {pair : Pair} :
    pair ∈ rest.foldl (channelsOf p a) out ↔ pair ∈ out ∨
      ∃ b ∈ rest, a.id ≠ b.id ∧ p.mayEstablishChannelAllows a b = true ∧ Pair.new a.id b.id = pair := by
  induction rest generalizing out with
  | nil => simp
  | cons b rest ih =>
    rw [List.foldl_cons, ih, memChannelsOf]
    simp only [List.mem_cons, exists_eq_or_imp, or_assoc]

theorem memChannelsFrom {p : Policy} {agents : List Agent} {out : BTreeSet Pair} {pair : Pair} :
    pair ∈ channelsFrom p out agents ↔ pair ∈ out ∨ ∃ a b, [a,b].Sublist agents ∧ a.id ≠ b.id ∧
      p.mayEstablishChannelAllows a b = true ∧ Pair.new a.id b.id = pair := by
  induction agents generalizing out with
  | nil => simp [channelsFrom]
  | cons first rest ih =>
    rw [channelsFrom, ih, memChannelsFold, or_assoc]
    refine or_congr_right ?_
    constructor
    · intro found
      rcases found with ⟨b,mem,found⟩ | ⟨a,b,inside,found⟩
      · exact ⟨first,b,(List.singleton_sublist.mpr mem).cons_cons first,found⟩
      · exact ⟨a,b,inside.cons first,found⟩
    · intro found
      obtain ⟨a,b,inside,found⟩ := found
      cases inside with
      | cons _ later => exact .inr ⟨a,b,later,found⟩
      | cons_cons _ later => exact .inl ⟨b,List.singleton_sublist.mp later,found⟩

/- What a desired channel stands for: two different members, with the flow allowed each way. -/
theorem desiredAllowed {n : Network} {pair : Pair} (desired : pair ∈ n.desiredChannels) :
    ∃ a ∈ n.agents, ∃ b ∈ n.agents, Pair.new a.id b.id = pair ∧ a.id ≠ b.id ∧
      n.policy.allows a b = true ∧ n.policy.allows b a = true := by
  rcases memChannelsFrom.mp desired with none | ⟨a,b,inside,differ,allowed,same⟩
  · simp at none
  · rw [Policy.mayEstablishChannelAllows, Bool.and_eq_true] at allowed
    exact ⟨a,inside.subset (by simp),b,inside.subset (by simp),same,differ,allowed⟩

theorem membersInOrder {agents : List Agent} {a b : Agent} (memA : a ∈ agents) (memB : b ∈ agents) (differ : a ≠ b) :
    [a,b].Sublist agents ∨ [b,a].Sublist agents := by
  induction agents with
  | nil => simp at memA
  | cons first rest ih =>
    rcases List.mem_cons.mp memA with firstA | restA <;> rcases List.mem_cons.mp memB with firstB | restB
    · exact absurd (firstA.trans firstB.symm) differ
    · rw [firstA]
      exact .inl ((List.singleton_sublist.mpr restB).cons_cons first)
    · rw [firstB]
      exact .inr ((List.singleton_sublist.mpr restA).cons_cons first)
    · exact (ih restA restB).imp (.cons first) (.cons first)

theorem findMember {debug : String → String} {n : Network} (ok : n.validate debug = .ok ()) {a : Agent}
    (mem : a ∈ n.agents) : n.agents.find? (fun x => x.id = a.id) = some a := by
  cases found : n.agents.find? (fun x => x.id = a.id) with
  | none => simpa using List.find?_eq_none.mp found a mem
  | some b =>
    have same : b.id = a.id := by simpa using List.find?_some found
    rw [validatedUnique ok (List.mem_of_find?_eq_some found) mem same]

/- The desired channels of a validated network are the pairs that it explains as allowed. -/
theorem desiredExplained {debug : String → String} {n : Network} (ok : n.validate debug = .ok ()) {a b : Agent}
    (memA : a ∈ n.agents) (memB : b ∈ n.agents) (differ : a.id ≠ b.id) :
    Pair.new a.id b.id ∈ n.desiredChannels ↔ (n.explain a.id b.id).allowed = true := by
  rw [explain, findMember ok memA, findMember ok memB]
  simp only [Policy.mayEstablishChannelAllowed]
  constructor
  · intro desired
    obtain ⟨c,memC,d,memD,same,_,there,back⟩ := desiredAllowed desired
    rw [Policy.mayEstablishChannelAllows, Bool.and_eq_true]
    rcases pairEnds same with ⟨left,right⟩ | ⟨left,right⟩
    · rw [← validatedUnique ok memC memA left, ← validatedUnique ok memD memB right]
      exact ⟨there,back⟩
    · rw [← validatedUnique ok memC memB left, ← validatedUnique ok memD memA right]
      exact ⟨back,there⟩
  · intro allowed
    have back : n.policy.mayEstablishChannelAllows b a = true := by
      rwa [Policy.mayEstablishChannelAllows, Bool.and_comm, ← Policy.mayEstablishChannelAllows]
    refine memChannelsFrom.mpr (.inr ?_)
    rcases membersInOrder memA memB (fun same => differ (congrArg Agent.id same)) with inside | inside
    · exact ⟨a,b,inside,differ,allowed,rfl⟩
    · exact ⟨b,a,inside,differ.symm,back,pairComm _ _⟩

end Network

end CadsTunnel.NetworkPolicy
