import CadsTunnel.OverlayForest
import CadsTunnel.OverlayDistances

/-! The rounds of the shortcut planner. The distances of every round are those of a
fresh computation over the links chosen so far; a round adds the candidate that gains most,
whatever order the costs are visited in, and none is left that gains when it stops. -/
namespace CadsTunnel.Overlay
open Words OrderedMap ShortestPaths Distances

/- Which edge a link is a candidate for. -/
def offers (known : BTreeMap String Nat) (l : WeightedLink) : Option Edge :=
  if l.a = l.b then none else edgeOf known l.a l.b

/- The cost of an edge after a link. -/
def noted (known : BTreeMap String Nat) (edge : Edge) (cost : Option UInt64) (l : WeightedLink) : Option UInt64 :=
  if offers known l = some edge then some (cost.elim l.cost fun c => min c l.cost) else cost

theorem noteCostLookup (known : BTreeMap String Nat) (cost : BTreeMap Edge UInt64) (l : WeightedLink) (edge : Edge) :
    (noteCost known cost l)[edge]? = noted known edge cost[edge]? l := by
  rw [noteCost, noted, offers]
  by_cases self : l.a = l.b
  · simp [self]
  · rw [if_neg self, if_neg self]
    cases edgeOf known l.a l.b with
    | none => simp
    | some e =>
      dsimp only
      by_cases same : edge = e
      · subst same
        rw [if_pos rfl]
        cases found : cost[edge]? with
        | none =>
          dsimp only
          rw [lookupInsert, if_pos rfl]
          rfl
        | some c =>
          dsimp only
          rw [lookupInsert, if_pos rfl]
          rfl
      · have other : some e ≠ some edge := fun equal => same (Option.some.inj equal).symm
        rw [if_neg other]
        split <;> rw [lookupInsert, if_neg same]

theorem cheapestLookup (known : BTreeMap String Nat) (links : List WeightedLink) (edge : Edge) :
    (cheapest known links)[edge]? = links.foldl (noted known edge) none := by
  have kept (cost : BTreeMap Edge UInt64) :
      (links.foldl (noteCost known) cost)[edge]? = links.foldl (noted known edge) cost[edge]? := by
    induction links generalizing cost with
    | nil => rfl
    | cons l rest ih =>
      rw [List.foldl_cons, ih, noteCostLookup]
      rfl
  simpa [cheapest] using kept ∅

theorem notedComm (known : BTreeMap String Nat) (edge : Edge) : RightCommutative (noted known edge) where
  right_comm cost first second := by
    simp only [noted]
    by_cases atFirst : offers known first = some edge
    · by_cases atSecond : offers known second = some edge
      · rw [if_pos atFirst, if_pos atSecond, if_pos atFirst, if_pos atSecond]
        cases cost with
        | none => exact congrArg some (UInt64.toNat.inj (by simp only [Option.elim_none, Option.elim_some, wordMin, min_comm]))
        | some c => exact congrArg some (UInt64.toNat.inj (by simp only [Option.elim_some, wordMin, min_right_comm]))
      · rw [if_neg atSecond, if_neg atSecond]
    · rw [if_neg atFirst, if_neg atFirst]

/- The order of the links does not count. -/
theorem cheapestPerm (known : BTreeMap String Nat) {links links' : List WeightedLink} (perm : links.Perm links') :
    cheapest known links = cheapest known links' := by
  refine Std.ExtTreeMap.ext_getElem? fun edge => ?_
  rw [cheapestLookup, cheapestLookup]
  exact @List.Perm.foldl_eq _ _ _ _ _ (notedComm known edge) perm none

/- The cost of an edge is that of a link, and no link of the edge costs less. -/
theorem notedLeast {known : BTreeMap String Nat} {links : List WeightedLink} {edge : Edge} {cost : Option UInt64} :
    (∀ c, links.foldl (noted known edge) cost = some c →
      cost = some c ∨ ∃ l ∈ links, offers known l = some edge ∧ l.cost = c) ∧
    ∀ low, (cost = some low ∨ ∃ l ∈ links, offers known l = some edge ∧ l.cost = low) →
      ∃ c, links.foldl (noted known edge) cost = some c ∧ c ≤ low := by
  induction links generalizing cost with
  | nil => exact ⟨fun c found => .inl found,fun low given => ⟨low,by simpa using given,UInt64.le_refl low⟩⟩
  | cons l rest ih =>
    obtain ⟨made,least⟩ := @ih (noted known edge cost l)
    constructor
    · intro c found
      rcases made c found with here | ⟨l',mem,same⟩
      · rw [noted] at here
        split at here
        · rename_i offered
          cases cost with
          | none => exact .inr ⟨l,List.mem_cons_self,offered,Option.some.inj here⟩
          | some c' =>
            have chosen : min c' l.cost = c := Option.some.inj here
            by_cases less : c' ≤ l.cost
            · exact .inl (congrArg some ((if_pos less).symm.trans chosen))
            · exact .inr ⟨l,List.mem_cons_self,offered,(if_neg less).symm.trans chosen⟩
        · exact .inl here
      · exact .inr ⟨l',List.mem_cons_of_mem l mem,same⟩
    · intro low given
      have stepped : (∃ c, noted known edge cost l = some c ∧ c ≤ low) ∨ ∃ l' ∈ rest, offers known l' = some edge ∧ l'.cost = low := by
        rcases given with here | ⟨l',mem,offered,same⟩
        · refine .inl ?_
          rw [here, noted]
          split
          · refine ⟨_,rfl,UInt64.le_iff_toNat_le.mpr ?_⟩
            rw [Option.elim_some, wordMin]
            exact min_le_left _ _
          · exact ⟨low,rfl,UInt64.le_refl low⟩
        · rcases List.mem_cons.mp mem with rfl | later
          · refine .inl ?_
            rw [noted, if_pos offered]
            refine ⟨_,rfl,UInt64.le_iff_toNat_le.mpr ?_⟩
            cases cost with
            | none => exact (congrArg UInt64.toNat same).le
            | some c =>
              rw [Option.elim_some, wordMin, same]
              exact min_le_right _ _
          · exact .inr ⟨l',later,offered,same⟩
      rcases stepped with ⟨c,here,below⟩ | later
      · obtain ⟨c',found,less⟩ := least c (.inl here)
        exact ⟨c',found,UInt64.le_trans less below⟩
      · exact least low (.inr later)

theorem cheapestFrom {known : BTreeMap String Nat} {links : List WeightedLink} {edge : Edge} {c : UInt64}
    (found : (cheapest known links)[edge]? = some c) : ∃ l ∈ links, offers known l = some edge ∧ l.cost = c := by
  rw [cheapestLookup] at found
  exact (notedLeast.1 c found).resolve_left (by simp)

theorem cheapestOf {known : BTreeMap String Nat} {links : List WeightedLink} {l : WeightedLink} (mem : l ∈ links) {edge : Edge}
    (offered : offers known l = some edge) : ∃ c, (cheapest known links)[edge]? = some c ∧ c ≤ l.cost := by
  rw [cheapestLookup]
  exact notedLeast.2 l.cost (.inr ⟨l,mem,offered,rfl⟩)

/- The ends of a candidate are two positions. -/
theorem offersInside {nodes : List String} {l : WeightedLink} {e : Edge} (offered : offers (index nodes) l = some e) :
    e.1 < e.2 ∧ e.2 < nodes.length := by
  rw [offers] at offered
  split at offered <;> try contradiction
  rename_i differ
  simp only [edgeOf, bind, Option.bind_eq_some_iff] at offered
  obtain ⟨ia,foundA,ib,foundB,last⟩ := offered
  cases Option.some.inj last
  have placeA := indexPlace foundA
  have placeB := indexPlace foundB
  have insideA := placeInside placeA
  have insideB := placeInside placeB
  have apart : ia ≠ ib := by
    rintro rfl
    exact differ (Option.some.inj (placeA.symm.trans placeB))
  dsimp only
  omega

theorem edgeOfInside {nodes : List String} {a b : String} {e : Edge} (found : edgeOf (index nodes) a b = some e) :
    Inside nodes.length e := by
  simp only [edgeOf, bind, Option.bind_eq_some_iff] at found
  obtain ⟨ia,foundA,ib,foundB,last⟩ := found
  cases Option.some.inj last
  have insideA := placeInside (indexPlace foundA)
  have insideB := placeInside (indexPlace foundB)
  refine ⟨?_,?_⟩ <;> dsimp only <;> omega

theorem edgeOfCanon (known : BTreeMap String Nat) (a b : String) :
    edgeOf known (canon a b).1 (canon a b).2 = edgeOf known a b := by
  rw [canon]
  split
  · rfl
  · dsimp only [edgeOf, bind]
    cases known[a]? <;> cases known[b]? <;> simp [min_comm, max_comm]

namespace Shortcuts
variable {s : Shortcuts} {cost : BTreeMap Edge UInt64}

/- What an unchosen edge takes off the path between its ends. -/
def gain (s : Shortcuts) (entry : Edge × UInt64) : Option (Edge × UInt64) :=
  if entry.1 ∈ s.chosen then none
  else
    let improvement := saturatingSub (s.dist.latency entry.1.1 entry.1.2) entry.2
    if improvement = 0 then none else some (entry.1,improvement)

def pick (best : Option (Edge × UInt64)) (gained : Edge × UInt64) : Option (Edge × UInt64) :=
  if better best gained.1 gained.2 then some gained else best

theorem considerGain (best : Option (Edge × UInt64)) (entry : Edge × UInt64) :
    s.consider best entry = ((s.gain entry).map (pick best)).getD best := by
  rw [consider, gain]
  split
  · rfl
  · dsimp only
    split
    · rfl
    · rfl

theorem considerGains (entries : List (Edge × UInt64)) (best : Option (Edge × UInt64)) :
    entries.foldl s.consider best = (entries.filterMap s.gain).foldl pick best := by
  induction entries generalizing best with
  | nil => rfl
  | cons entry rest ih =>
    rw [List.foldl_cons, ih, considerGain]
    cases found : s.gain entry with
    | none =>
      rw [List.filterMap_cons_none found]
      rfl
    | some gained =>
      rw [List.filterMap_cons_some found]
      rfl

/- The larger gain, then the smaller edge. -/
def Beats (x y : Edge × UInt64) : Prop := y.2 < x.2 ∨ x.2 = y.2 ∧ compare x.1 y.1 = .lt

theorem betterBeats {x y : Edge × UInt64} : better (some y) x.1 x.2 = true ↔ Beats x y := by
  simp [better, Beats]

theorem beatsTrans {x y z : Edge × UInt64} (first : Beats x y) (second : Beats y z) : Beats x z := by
  rcases first with more | ⟨equal,below⟩
  · rcases second with more' | ⟨equal',_⟩
    · exact .inl (UInt64.lt_trans more' more)
    · exact .inl (equal' ▸ more)
  · rcases second with more' | ⟨equal',below'⟩
    · exact .inl (equal ▸ more')
    · exact .inr ⟨equal.trans equal',Std.TransCmp.lt_trans below below'⟩

theorem beatsTotal {x y : Edge × UInt64} (left : ¬ Beats x y) (right : ¬ Beats y x) : x = y := by
  have equal : x.2 = y.2 := by
    refine UInt64.le_antisymm ?_ ?_
    · exact UInt64.not_lt.mp fun more => left (.inl more)
    · exact UInt64.not_lt.mp fun more => right (.inl more)
  have same : compare x.1 y.1 = .eq := by
    cases order : compare x.1 y.1 with
    | lt => exact absurd (.inr ⟨equal,order⟩) left
    | eq => rfl
    | gt => exact absurd (.inr ⟨equal.symm,Std.OrientedCmp.lt_of_gt order⟩) right
  exact Prod.ext (Std.LawfulEqCmp.eq_of_compare same) equal

/- The pick is among the gains, and none of them beats it. -/
theorem pickBest {gains : List (Edge × UInt64)} {best : Option (Edge × UInt64)} {x : Edge × UInt64}
    (picked : gains.foldl pick best = some x) :
    (best = some x ∨ x ∈ gains) ∧ ∀ y, (best = some y ∨ y ∈ gains) → ¬ Beats y x := by
  induction gains generalizing best with
  | nil =>
    refine ⟨.inl picked,fun y given => ?_⟩
    have same : y = x := Option.some.inj ((given.resolve_right (by simp)).symm.trans picked)
    rw [same, Beats]
    simp
  | cons g rest ih =>
    obtain ⟨made,most⟩ := ih picked
    constructor
    · refine made.elim (fun here => ?_) fun mem => .inr (List.mem_cons_of_mem g mem)
      rw [pick] at here
      split at here
      · exact .inr (by simp [Option.some.inj here])
      · exact .inl here
    · have fromPick {z : Edge × UInt64} (here : pick best g = some z) : ¬ Beats z x := most z (.inl here)
      rintro y (old | mem) wins
      · by_cases beaten : Beats g y
        · refine fromPick ?_ (beatsTrans beaten wins)
          rw [pick, old, if_pos (betterBeats.mpr beaten)]
        · refine fromPick ?_ wins
          rw [pick, old, if_neg fun more => beaten (betterBeats.mp more)]
      · rcases List.mem_cons.mp mem with rfl | later
        · cases best with
          | none => exact fromPick rfl wins
          | some b =>
            by_cases beaten : Beats y b
            · refine fromPick ?_ wins
              rw [pick, if_pos (betterBeats.mpr beaten)]
            · have below : ¬ Beats b x := by
                refine fromPick ?_
                rw [pick, if_neg fun more => beaten (betterBeats.mp more)]
              by_cases above : Beats x b
              · exact beaten (beatsTrans wins above)
              · exact beaten (beatsTotal below above ▸ wins)
        · exact most y (.inr later) wins

theorem pickSome (gains : List (Edge × UInt64)) (y : Edge × UInt64) : ∃ x, gains.foldl pick (some y) = some x := by
  induction gains generalizing y with
  | nil => exact ⟨y,rfl⟩
  | cons g rest ih =>
    rw [List.foldl_cons, pick]
    split <;> exact ih _

theorem pickNone {gains : List (Edge × UInt64)} (none' : gains.foldl pick none = none) : gains = [] := by
  cases gains with
  | nil => rfl
  | cons g rest =>
    obtain ⟨x,some'⟩ := pickSome rest g
    exact absurd (some'.symm.trans none') (by simp)

/- The costs can be visited in any order. -/
theorem considerPerm {entries entries' : List (Edge × UInt64)} (perm : entries.Perm entries') :
    entries.foldl s.consider none = entries'.foldl s.consider none := by
  rw [considerGains, considerGains]
  have gains := perm.filterMap s.gain
  cases left : (entries.filterMap s.gain).foldl pick none with
  | none =>
    rw [pickNone left] at gains
    rw [gains.symm.eq_nil]
    rfl
  | some x =>
    obtain ⟨madeX,mostX⟩ := pickBest left
    have memX : x ∈ entries.filterMap s.gain := madeX.resolve_left (by simp)
    cases right : (entries'.filterMap s.gain).foldl pick none with
    | none =>
      rw [pickNone right] at gains
      exact absurd (gains.mem_iff.mp memX) (by simp)
    | some y =>
      obtain ⟨madeY,mostY⟩ := pickBest right
      have memY : y ∈ entries'.filterMap s.gain := madeY.resolve_left (by simp)
      exact congrArg some (beatsTotal (mostY x (.inr (gains.mem_iff.mp memX))) (mostX y (.inr (gains.mem_iff.mpr memY))))

theorem gainSome {entry : Edge × UInt64} {x : Edge × UInt64} (found : s.gain entry = some x) :
    x.1 = entry.1 ∧ entry.1 ∉ s.chosen ∧ entry.2 < s.dist.latency entry.1.1 entry.1.2 := by
  rw [gain] at found
  split at found <;> try contradiction
  rename_i fresh
  dsimp only at found
  split at found <;> try contradiction
  rename_i gains
  refine ⟨(congrArg Prod.fst (Option.some.inj found)).symm,fresh,?_⟩
  rw [saturatingSub] at gains
  split at gains <;> try contradiction
  rename_i less
  refine UInt64.lt_of_le_of_ne less ?_
  intro same
  rw [same, UInt64.sub_self] at gains
  exact gains rfl

theorem gainNone {entry : Edge × UInt64} (none' : s.gain entry = none) (fresh : entry.1 ∉ s.chosen) :
    s.dist.latency entry.1.1 entry.1.2 ≤ entry.2 := by
  rw [gain, if_neg fresh] at none'
  dsimp only at none'
  split at none' <;> try contradiction
  rename_i zero
  rw [saturatingSub] at zero
  split at zero
  · rename_i less
    have same := congrArg UInt64.toNat zero
    rw [UInt64.toNat_sub_of_le _ _ less] at same
    refine UInt64.le_iff_toNat_le.mpr ?_
    have none'' : (0 : UInt64).toNat = 0 := rfl
    omega
  · rename_i more
    exact UInt64.le_of_lt (UInt64.not_le.mp more)

theorem bestSome {edge : Edge} {improvement : UInt64} (won : s.best cost = some (edge,improvement)) :
    ∃ c, cost[edge]? = some c ∧ edge ∉ s.chosen ∧ c < s.dist.latency edge.1 edge.2 := by
  rw [best, considerGains] at won
  obtain ⟨entry,mem,found⟩ := List.mem_filterMap.mp ((pickBest won).1.resolve_left (by simp))
  obtain ⟨rfl,fresh,less⟩ := gainSome found
  exact ⟨entry.2,Std.ExtTreeMap.mem_toList_iff_getElem?_eq_some.mp mem,fresh,less⟩

theorem bestNone (stuck : s.best cost = none) {edge : Edge} {c : UInt64} (known : cost[edge]? = some c) (fresh : edge ∉ s.chosen) :
    s.dist.latency edge.1 edge.2 ≤ c := by
  rw [best, considerGains] at stuck
  have gains := List.filterMap_eq_nil_iff.mp (pickNone stuck)
  exact gainNone (gains (edge,c) (Std.ExtTreeMap.mem_toList_iff_getElem?_eq_some.mpr known)) fresh

/- The state before the first round. -/
def start (nodes : List String) (links : List WeightedLink) (base : OverlayPlan) : Shortcuts :=
  let chosen := chosenOf (index nodes) base
  ⟨chosen,.allPairs nodes.length (cheapest (index nodes) links) chosen,base⟩

def next (nodes : List String) (cost : BTreeMap Edge UInt64) (s : Shortcuts) : Shortcuts :=
  match s.best cost with
  | none => s
  | some (edge,_) => s.add nodes cost edge

theorem roundsNext (nodes : List String) (cost : BTreeMap Edge UInt64) (k : Nat) (s : Shortcuts) :
    s.rounds nodes cost (k + 1) = (s.rounds nodes cost k).next nodes cost := by
  induction k generalizing s with
  | zero => rfl
  | succ k ih =>
    rw [rounds, rounds]
    cases won : s.best cost with
    | none =>
      dsimp only
      rw [next, won]
    | some found => exact ih (s.add nodes cost found.1)

theorem roundsStuck {nodes : List String} (stuck : s.best cost = none) (k : Nat) : s.rounds nodes cost k = s := by
  cases k with
  | zero => rfl
  | succ k => rw [rounds, stuck]

theorem addShortcutsRounds (nodes : List String) (links : List WeightedLink) (base : OverlayPlan) (budget : Nat) :
    addShortcuts nodes links base budget =
      ((start nodes links base).rounds nodes (cheapest (index nodes) links) budget).plan := by
  rw [addShortcuts]
  split
  · rename_i early
    rcases early with few | rfl
    · have stuck : (start nodes links base).best (cheapest (index nodes) links) = none := by
        cases won : (start nodes links base).best (cheapest (index nodes) links) with
        | none => rfl
        | some found =>
          obtain ⟨c,known,_⟩ := bestSome won
          obtain ⟨l,_,offered,_⟩ := cheapestFrom known
          obtain ⟨sorted,inside⟩ := offersInside offered
          omega
      rw [roundsStuck stuck]
      rfl
    · rfl
  · rfl

theorem chosenInside {nodes : List String} {plan : OverlayPlan} {e : Edge} (mem : e ∈ chosenOf (index nodes) plan) :
    Inside nodes.length e := by
  have kept (es : List Edge) (chosen : BTreeSet Edge) (before : ∀ e ∈ chosen, Inside nodes.length e)
      (now : ∀ e ∈ es, Inside nodes.length e) :
      ∀ e ∈ es.foldl (fun chosen edge => chosen.insert edge) chosen, Inside nodes.length e := by
    induction es generalizing chosen with
    | nil => exact before
    | cons e' rest ih =>
      refine ih _ ?_ fun e mem => now e (List.mem_cons_of_mem e' mem)
      intro e mem
      rw [Std.ExtTreeSet.mem_insert, Std.LawfulEqCmp.compare_eq_iff_eq] at mem
      exact mem.elim (fun same => same ▸ now e' List.mem_cons_self) (before e)
  refine kept _ ∅ (by simp) ?_ e mem
  intro e mem
  obtain ⟨link,_,found⟩ := List.mem_filterMap.mp mem
  exact edgeOfInside found

/- What holds before and after every round. -/
structure Valid (nodes : List String) (cost : BTreeMap Edge UInt64) (s : Shortcuts) : Prop where
  chosen : s.chosen = chosenOf (index nodes) s.plan
  exact : Exactly nodes.length cost s.chosen s.dist

theorem startValid (nodes : List String) (links : List WeightedLink) (base : OverlayPlan) :
    (start nodes links base).Valid nodes (cheapest (index nodes) links) where
  chosen := rfl
  exact := allPairsExact _ fun _ mem => chosenInside mem

/- The table never exceeds the latency of no path. -/
theorem latencyBelow {nodes : List String} (valid : s.Valid nodes cost) {e : Edge} (inside : Inside nodes.length e) :
    (s.dist.latency e.1 e.2).toNat ≤ top := by
  obtain ⟨sorted,bound⟩ := inside
  obtain ⟨M,reads,exactM⟩ := valid.exact
  exact (reads.cell ⟨e.1,by omega⟩ ⟨e.2,bound⟩).trans_le (exactM.below _ _)

theorem addValid {nodes : List String} {links : List WeightedLink} (valid : s.Valid nodes (cheapest (index nodes) links))
    {e : Edge} {c : UInt64} (known : (cheapest (index nodes) links)[e]? = some c) (less : c < s.dist.latency e.1 e.2) :
    (s.add nodes (cheapest (index nodes) links) e).Valid nodes (cheapest (index nodes) links) where
  chosen := by
    obtain ⟨l,_,offered,_⟩ := cheapestFrom known
    rw [offers] at offered
    split at offered <;> try contradiction
    have planned : edgeOf (index nodes) (canon (nodes.getD e.1 "") (nodes.getD e.2 "")).1
        (canon (nodes.getD e.1 "") (nodes.getD e.2 "")).2 = some e := by
      rw [edgeNodes offered, edgeOfCanon, offered]
    have single : [canon (nodes.getD e.1 "") (nodes.getD e.2 "")].filterMap (fun link => edgeOf (index nodes) link.1 link.2) = [e] :=
      List.filterMap_cons_some planned
    rw [add, chosenOf, OverlayPlan.push]
    dsimp only
    rw [List.filterMap_append, single, List.foldl_append, ← chosenOf, ← valid.chosen]
    rfl
  exact := by
    obtain ⟨l,_,offered,_⟩ := cheapestFrom known
    obtain ⟨sorted,bound⟩ := offersInside offered
    have most := latencyBelow valid ⟨sorted.le,bound⟩
    have light := UInt64.lt_iff_toNat_lt.mp less
    have weight : (cheapest (index nodes) links)[e]?.getD inf = c := by rw [known]; rfl
    rw [add, weight]
    exact relaxExact ⟨sorted.le,bound⟩ known (by omega) valid.exact

theorem nextValid {nodes : List String} {links : List WeightedLink} (valid : s.Valid nodes (cheapest (index nodes) links)) :
    (s.next nodes (cheapest (index nodes) links)).Valid nodes (cheapest (index nodes) links) := by
  rw [next]
  split
  · exact valid
  · rename_i edge improvement won
    obtain ⟨c,known,_,less⟩ := bestSome won
    exact addValid valid known less

theorem roundsValid (nodes : List String) (links : List WeightedLink) (base : OverlayPlan) (k : Nat) :
    ((start nodes links base).rounds nodes (cheapest (index nodes) links) k).Valid nodes (cheapest (index nodes) links) := by
  induction k with
  | zero => exact startValid nodes links base
  | succ k ih =>
    rw [roundsNext]
    exact nextValid ih

/- A new link shortens the path between its ends. -/
theorem addShortens {nodes : List String} {links : List WeightedLink} (valid : s.Valid nodes (cheapest (index nodes) links))
    {e : Edge} {c : UInt64} (known : (cheapest (index nodes) links)[e]? = some c) (less : c < s.dist.latency e.1 e.2) :
    (s.add nodes (cheapest (index nodes) links) e).dist.latency e.1 e.2 < s.dist.latency e.1 e.2 := by
  obtain ⟨l,_,offered,_⟩ := cheapestFrom known
  obtain ⟨sorted,bound⟩ := offersInside offered
  obtain ⟨M,reads,exactM⟩ := (addValid valid known less).exact
  let a : Fin nodes.length := ⟨e.1,by omega⟩
  let b : Fin nodes.length := ⟨e.2,bound⟩
  have here : edge a b = e := by
    rw [edge, min_eq_left sorted.le, max_eq_right sorted.le]
  have taken : e ∈ (s.add nodes (cheapest (index nodes) links) e).chosen := by
    rw [add, Std.ExtTreeSet.mem_insert]
    exact .inl Std.ReflCmp.compare_self
  have short : M a b ≤ c.toNat := exactM.links a b c.toNat ⟨here.symm ▸ taken,c,here.symm ▸ known,rfl⟩
  refine UInt64.lt_of_le_of_lt (UInt64.le_iff_toNat_le.mpr ?_) less
  exact (reads.cell a b).trans_le short

theorem validShortest {nodes : List String} {links : List WeightedLink} (valid : s.Valid nodes (cheapest (index nodes) links))
    (small : Below (Priced (n := nodes.length) (cheapest (index nodes) links) fun _ => True) top) (x y : Fin nodes.length) :
    if s.dist.latency x y = inf then ∀ c, ¬ Path (Priced (cheapest (index nodes) links) fun e => e ∈ s.chosen) x y c
    else Shortest (Priced (cheapest (index nodes) links) fun e => e ∈ s.chosen) x y (s.dist.latency x y).toNat := by
  obtain ⟨M,reads,exactM⟩ := valid.exact
  have fewer : Below (Priced (cheapest (index nodes) links) fun e => e ∈ s.chosen) top :=
    belowMono (fun _ _ _ step => ⟨trivial,step.2⟩) small
  have shortest := exactShortest exactM fewer x y
  have same : M x y = top ↔ s.dist.latency x y = inf := by
    rw [← reads.cell x y]
    exact UInt64.toNat_inj
  simp only [same] at shortest
  rwa [reads.cell x y]

/- The links that the rounds add, one after another. -/
theorem roundsAdd (nodes : List String) (links : List WeightedLink) (base : OverlayPlan) (k : Nat) :
    let cost := cheapest (index nodes) links
    let state := fun k => (start nodes links base).rounds nodes cost k
    ∃ added : List WeightedLink, added.length ≤ k ∧
      (state k).plan.links = base.links ++ added.map (fun l => canon l.a l.b) ∧
      (∀ (t : Nat) (l : WeightedLink), added[t]? = some l → l ∈ links ∧ ∃ e, offers (index nodes) l = some e ∧
        e ∉ (state t).chosen ∧ (state (t + 1)).dist.latency e.1 e.2 < (state t).dist.latency e.1 e.2) ∧
      (added.length < k → (state k).best cost = none) := by
  intro cost state
  induction k with
  | zero => exact ⟨[],le_rfl,(List.append_nil _).symm,by simp,by simp⟩
  | succ k ih =>
    obtain ⟨added,few,planned,each,stops⟩ := ih
    have valid := roundsValid nodes links base k
    have step : state (k + 1) = (state k).next nodes cost := roundsNext nodes cost k _
    cases won : (state k).best cost with
    | none =>
      have same : state (k + 1) = state k := by rw [step, next, won]
      exact ⟨added,by omega,by rw [same, planned],each,fun _ => by rw [same, won]⟩
    | some found =>
      obtain ⟨edge,improvement⟩ := found
      have full : added.length = k := by
        by_contra other
        have stuck := stops (by omega)
        rw [won] at stuck
        contradiction
      obtain ⟨c,known,fresh,less⟩ := bestSome won
      obtain ⟨l,mem,offered,_⟩ := cheapestFrom known
      have grown : state (k + 1) = (state k).add nodes cost edge := by rw [step, next, won]
      have ends : canon (nodes.getD edge.1 "") (nodes.getD edge.2 "") = canon l.a l.b := by
        rw [offers] at offered
        split at offered <;> try contradiction
        exact edgeNodes offered
      refine ⟨added ++ [l],by simp [full],?_,?_,fun more => ?_⟩
      · rw [grown, List.map_append, ← List.append_assoc, ← planned, List.map_cons, List.map_nil, ← ends]
        rfl
      · intro t l' at'
        rcases Nat.lt_or_ge t added.length with before | after
        · rw [List.getElem?_append_left before] at at'
          exact each t l' at'
        · rw [List.getElem?_append_right after] at at'
          have last : t = k := by
            have inside := (List.getElem?_eq_some_iff.mp at').1
            rw [List.length_singleton] at inside
            omega
          rw [full, last, Nat.sub_self] at at'
          cases Option.some.inj at'
          rw [last, grown]
          exact ⟨mem,edge,offered,fresh,addShortens valid known less⟩
      · rw [List.length_append, List.length_singleton] at more
        omega

end Shortcuts

/- Every round's distances are the shortest paths over the links chosen so far. The result adds to
the base at most the budget of candidates, each of which shortens a path; if it adds fewer no other
candidate would. Neither the order of the links nor that of the costs counts. -/
theorem shortcutsExact (nodes : List String) (links : List WeightedLink) (base : OverlayPlan) (budget : Nat)
    (small : Below (Priced (n := nodes.length) (cheapest (index nodes) links) fun _ => True) inf.toNat) :
    let cost := cheapest (index nodes) links
    let state := fun k => (Shortcuts.start nodes links base).rounds nodes cost k
    let chosen := fun k => chosenOf (index nodes) (state k).plan
    addShortcuts nodes links base budget = (state budget).plan ∧
    (∀ k, (state k).dist = Distances.allPairs nodes.length cost (chosen k) ∧
      ∀ x y : Fin nodes.length,
        if (state k).dist.latency x y = inf then ∀ c, ¬ Path (Priced cost fun e => e ∈ chosen k) x y c
        else Shortest (Priced cost fun e => e ∈ chosen k) x y ((state k).dist.latency x y).toNat) ∧
    (∃ added : List WeightedLink, added.length ≤ budget ∧
      (addShortcuts nodes links base budget).links = base.links ++ added.map (fun l => canon l.a l.b) ∧
      (∀ (t : Nat) (l : WeightedLink), added[t]? = some l → l ∈ links ∧ ∃ e, offers (index nodes) l = some e ∧
        e ∉ chosen t ∧ (state (t + 1)).dist.latency e.1 e.2 < (state t).dist.latency e.1 e.2) ∧
      (added.length < budget → ∀ l ∈ links, ∀ e, offers (index nodes) l = some e → e ∉ chosen budget →
        (state budget).dist.latency e.1 e.2 ≤ l.cost)) ∧
    (∀ links', links.Perm links' → addShortcuts nodes links' base budget = addShortcuts nodes links base budget) ∧
    ∀ (k : Nat) (entries : List (Edge × UInt64)), entries.Perm cost.toList → entries.foldl (state k).consider none = (state k).best cost := by
  intro cost state chosen
  have valid (k : Nat) : (state k).Valid nodes cost := Shortcuts.roundsValid nodes links base k
  have taken (k : Nat) : (state k).chosen = chosen k := (valid k).chosen
  have result : addShortcuts nodes links base budget = (state budget).plan := Shortcuts.addShortcutsRounds nodes links base budget
  refine ⟨result,fun k => ⟨?_,fun x y => ?_⟩,?_,?_,fun k entries perm => Shortcuts.considerPerm perm⟩
  · rw [← taken]
    exact exactlyUnique (valid k).exact (allPairsExact cost fun e mem => Shortcuts.chosenInside (taken k ▸ mem))
  · rw [← taken]
    exact Shortcuts.validShortest (valid k) small x y
  · obtain ⟨added,few,planned,each,stops⟩ := Shortcuts.roundsAdd nodes links base budget
    refine ⟨added,few,result ▸ planned,fun t l at' => ?_,fun fewer l mem e offered fresh => ?_⟩
    · rw [← taken]
      exact each t l at'
    · obtain ⟨c,known,less⟩ := cheapestOf mem offered
      exact UInt64.le_trans (Shortcuts.bestNone (stops fewer) known (taken budget ▸ fresh)) less
  · intro links' perm
    rw [addShortcuts, addShortcuts, cheapestPerm (index nodes) perm]

/- Four nodes in a line and one link between its ends, which is shorter than the way along. -/
theorem lineShortened :
    let links : List WeightedLink := [⟨"a","b",1⟩,⟨"b","c",1⟩,⟨"c","d",1⟩,⟨"d","a",2⟩]
    let base : OverlayPlan := ⟨[("a","b"),("b","c"),("c","d")],3,true⟩
    (addShortcuts ["a","b","c","d"] links base 2).links = [("a","b"),("b","c"),("c","d"),("a","d")] ∧
      addShortcuts ["a","b","c","d"] links.reverse base 2 = addShortcuts ["a","b","c","d"] links base 2 := by
  intro links base
  have light : ∀ l ∈ links, l.cost.toNat ≤ 2 := by decide
  have small : Below (Priced (n := 4) (cheapest (index ["a","b","c","d"]) links) fun _ => True) inf.toNat := by
    refine belowBounded (m := 2) ?_ (by decide)
    rintro x y _ ⟨_,w,known,rfl⟩
    obtain ⟨l,mem,_,rfl⟩ := cheapestFrom known
    exact light l mem
  exact ⟨by decide +kernel,(shortcutsExact ["a","b","c","d"] links base 2 small).2.2.2.1 _ (List.reverse_perm links).symm⟩

end CadsTunnel.Overlay
