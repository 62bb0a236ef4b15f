import CadsTunnel.OverlayPlan
import CadsTunnel.SpanningForest

/-! The backbone of an overlay is a spanning forest of least latency: the sets of the
union-find are the parts that the chosen links connect, so the loop keeps the links that
the greedy choice keeps, and it stops early only when one part is left. -/
namespace CadsTunnel.Overlay
open Words OrderedMap SpanningForest

namespace DisjointSet

/- Two elements are in one set if their walks up the parents meet. -/
def sets (ds : DisjointSet) : Setoid Nat where
  r x y := ∃ m k, ds.parentOf^[m] x = ds.parentOf^[k] y
  iseqv := by
    refine ⟨fun x => ⟨0,0,rfl⟩,?_,?_⟩
    · rintro x y ⟨m,k,meet⟩
      exact ⟨k,m,meet.symm⟩
    · rintro x y z ⟨m,k,meet⟩ ⟨m',k',meet'⟩
      refine ⟨m' + m,k + k',?_⟩
      rw [Function.iterate_add_apply, meet, ← Function.iterate_add_apply, Nat.add_comm, Function.iterate_add_apply, meet',
        ← Function.iterate_add_apply]

theorem setsParent (ds : DisjointSet) (x : Nat) : ds.sets (ds.parentOf x) x := ⟨0,1,rfl⟩

theorem setsLe {ds : DisjointSet} {t : Setoid Nat} (parents : ∀ x, t (ds.parentOf x) x) : ds.sets ≤ t := by
  have above (m x : Nat) : t (ds.parentOf^[m] x) x := by
    induction m with
    | zero => exact t.refl x
    | succ m ih =>
      rw [Function.iterate_succ_apply']
      exact t.trans (parents _) ih
  rintro x y ⟨m,k,meet⟩
  exact t.trans (t.symm (above m x)) (meet ▸ above k y)

theorem rootsApart {ds : DisjointSet} {x y : Nat} (rootX : ds.parentOf x = x) (rootY : ds.parentOf y = y) :
    ds.sets x y ↔ x = y := by
  constructor
  · rintro ⟨m,k,meet⟩
    rwa [Function.iterate_fixed rootX, Function.iterate_fixed rootY] at meet
  · rintro rfl
    exact ds.sets.refl x

theorem newSets (n : Nat) {x y : Nat} (inX : x < n) (inY : y < n) : (new n).sets x y ↔ x = y := by
  have root {x : Nat} (bound : x < n) : (new n).parentOf x = x := by simp [new, parentOf, bound]
  exact rootsApart (root inX) (root inY)

theorem halveSets {n : Nat} {ds : DisjointSet} (formed : ds.WellFormed n) {x : Nat} (bound : x < n) (moved : ds.parentOf x ≠ x) :
    (ds.halve x).sets = ds.sets := by
  have skips := parentHalve formed bound
  apply le_antisymm
  · refine setsLe fun y => ?_
    rw [skips]
    split
    · rename_i same
      rw [same]
      exact ⟨0,2,rfl⟩
    · exact ds.setsParent y
  · refine setsLe fun y => ?_
    by_cases same : y = x
    · refine ⟨1,1,?_⟩
      show (ds.halve x).parentOf (ds.parentOf y) = (ds.halve x).parentOf y
      rw [same, skips, skips, if_neg moved, if_pos rfl]
    · refine ⟨0,1,?_⟩
      show ds.parentOf y = (ds.halve x).parentOf y
      rw [skips, if_neg same]

theorem findFromSets {n fuel : Nat} {ds : DisjointSet} (formed : ds.WellFormed n) {x : Nat} (bound : x < n) :
    (findFrom fuel ds x).2.sets = ds.sets ∧ ds.sets (findFrom fuel ds x).1 x := by
  induction fuel generalizing ds x with
  | zero => exact ⟨rfl,ds.sets.refl x⟩
  | succ fuel ih =>
    rw [findFrom]
    split
    · exact ⟨rfl,ds.sets.refl x⟩
    · rename_i moved
      have halved := halveWellFormed formed bound moved
      have kept := halveSets formed bound moved
      obtain ⟨same,reached⟩ := ih halved (halved.inside x bound)
      have up := (ds.halve x).setsParent x
      rw [kept] at same reached up
      exact ⟨same,ds.sets.trans reached up⟩

theorem findSets {n : Nat} {ds : DisjointSet} (formed : ds.WellFormed n) {x : Nat} (bound : x < n) :
    (ds.find x).2.sets = ds.sets ∧ ds.sets (ds.find x).1 x :=
  findFromSets formed bound

theorem attachSets {n : Nat} {ds : DisjointSet} (formed : ds.WellFormed n) {big small : Nat} (bound : small < n)
    (root : ds.parentOf small = small) : (ds.attach big small).sets = join ds.sets (big,small) := by
  have moves (y : Nat) : (ds.attach big small).parentOf y = if y = small then big else ds.parentOf y := parentAttach formed bound y
  apply le_antisymm
  · refine setsLe fun y => ?_
    rw [moves]
    split
    · rename_i same
      rw [same]
      exact joinEnds ds.sets (big,small)
    · exact joinKeeps _ _ (ds.setsParent y)
  · refine joinLe.mpr ⟨setsLe fun y => ?_,⟨0,1,?_⟩⟩
    · by_cases same : y = small
      · rw [same, root]
      · refine ⟨0,1,?_⟩
        show ds.parentOf y = (ds.attach big small).parentOf y
        rw [moves, if_neg same]
    · show big = (ds.attach big small).parentOf small
      rw [moves, if_pos rfl]

theorem joinRepresented {s : Setoid Nat} {x y rx ry : Nat} (atX : s rx x) (atY : s ry y) : join s (rx,ry) = join s (x,y) := by
  have half {a b c d : Nat} (ac : s a c) (bd : s b d) : join s (a,b) ≤ join s (c,d) :=
    joinLe.mpr ⟨joinKeeps _ _,.inr (.inl ⟨ac,s.symm bd⟩)⟩
  exact le_antisymm (half atX atY) (half (s.symm atX) (s.symm atY))

/- A union tells whether the sets were apart, and leaves them joined. -/
theorem unionSets {n : Nat} {ds : DisjointSet} (formed : ds.WellFormed n) {x y : Nat} (xIn : x < n) (yIn : y < n) :
    ((ds.union x y).1 = true ↔ ¬ ds.sets x y) ∧ (ds.union x y).2.sets = join ds.sets (x,y) := by
  obtain ⟨firstFormed,rxIn,rxRoot⟩ := findRoot formed xIn
  obtain ⟨secondFormed,ryIn,ryRoot⟩ := findRoot firstFormed yIn
  obtain ⟨firstSame,atX⟩ := findSets formed xIn
  obtain ⟨secondSame,atY⟩ := findSets firstFormed yIn
  have kept : ((ds.find x).2.find y).2.parentOf (ds.find x).1 = (ds.find x).1 := findFromKeepsRoot firstFormed yIn rxRoot
  have same : ((ds.find x).2.find y).2.sets = ds.sets := secondSame.trans firstSame
  rw [firstSame] at atY
  have met : ds.sets x y ↔ (ds.find x).1 = ((ds.find x).2.find y).1 := by
    rw [← rootsApart kept ryRoot, same]
    exact ⟨fun xy => ds.sets.trans atX (ds.sets.trans xy (ds.sets.symm atY)),
      fun roots => ds.sets.trans (ds.sets.symm atX) (ds.sets.trans roots atY)⟩
  have joined := joinRepresented atX atY
  rw [union]
  dsimp only
  split
  · rename_i equal
    exact ⟨by simp [met.mpr equal],by rw [same, joinJoined (met.mpr equal)]⟩
  · rename_i differ
    have apart : ¬ ds.sets x y := fun xy => differ (met.mp xy)
    split
    · exact ⟨by simp [apart],by rw [attachSets secondFormed ryIn ryRoot, same, joined]⟩
    · exact ⟨by simp [apart],by rw [attachSets secondFormed rxIn kept, same, joinSwap, joined]⟩

end DisjointSet

def Candidate.ends (c : Candidate) : String × String := (c.ca,c.cb)

/- The sets of positions are the parts of the nodes at them. -/
structure Holds (nodes : List String) (ds : DisjointSet) (s : Setoid String) : Prop where
  formed : ds.WellFormed nodes.length
  parts : ∀ {i j : Nat} {a b : String}, nodes[i]? = some a → nodes[j]? = some b → (ds.sets i j ↔ s a b)

theorem placeInside {nodes : List String} {i : Nat} {a : String} (place : nodes[i]? = some a) : i < nodes.length :=
  (List.getElem?_eq_some_iff.mp place).1

theorem newHolds {nodes : List String} (distinct : nodes.Nodup) : Holds nodes (.new nodes.length) ⊥ where
  formed := DisjointSet.newWellFormed _
  parts := by
    intro i j a b placeA placeB
    rw [DisjointSet.newSets _ (placeInside placeA) (placeInside placeB)]
    constructor
    · rintro rfl
      exact Option.some.inj (placeA.symm.trans placeB)
    · rintro rfl
      exact (List.getElem?_inj (placeInside placeA) distinct).mp (placeA.trans placeB.symm)

theorem unionHolds {nodes : List String} {ds : DisjointSet} {s : Setoid String} (holds : Holds nodes ds s) {ia ib : Nat}
    {a b : String} (placeA : nodes[ia]? = some a) (placeB : nodes[ib]? = some b) :
    ((ds.union ia ib).1 = true ↔ ¬ s a b) ∧ Holds nodes (ds.union ia ib).2 (join s (a,b)) := by
  obtain ⟨told,joined⟩ := DisjointSet.unionSets holds.formed (placeInside placeA) (placeInside placeB)
  refine ⟨by rw [told, holds.parts placeA placeB],?_,?_⟩
  · exact DisjointSet.unionWellFormed holds.formed (placeInside placeA) (placeInside placeB)
  · intro i j c d placeC placeD
    rw [joined]
    exact or_congr (holds.parts placeC placeD)
      (or_congr (and_congr (holds.parts placeC placeA) (holds.parts placeB placeD))
        (and_congr (holds.parts placeC placeB) (holds.parts placeA placeD)))

/- The positions of a candidate are those of its ends, in either order. -/
def Placed (nodes : List String) (c : Candidate) : Prop :=
  nodes[c.ia]? = some c.ca ∧ nodes[c.ib]? = some c.cb ∨ nodes[c.ia]? = some c.cb ∧ nodes[c.ib]? = some c.ca

theorem candidateHolds {nodes : List String} {ds : DisjointSet} {s : Setoid String} (holds : Holds nodes ds s) {c : Candidate}
    (placed : Placed nodes c) :
    ((ds.union c.ia c.ib).1 = true ↔ ¬ s c.ca c.cb) ∧ Holds nodes (ds.union c.ia c.ib).2 (join s c.ends) := by
  rcases placed with ⟨left,right⟩ | ⟨left,right⟩
  · exact unionHolds holds left right
  · obtain ⟨told,held⟩ := unionHolds holds left right
    exact ⟨told.trans (not_congr (Setoid.comm' s)),by rwa [joinSwap] at held⟩

theorem placedMem {nodes : List String} {c : Candidate} (placed : Placed nodes c) : c.ca ∈ nodes ∧ c.cb ∈ nodes := by
  rcases placed with ⟨left,right⟩ | ⟨left,right⟩
  · exact ⟨List.mem_of_getElem? left,List.mem_of_getElem? right⟩
  · exact ⟨List.mem_of_getElem? right,List.mem_of_getElem? left⟩

def pushAll (plan : OverlayPlan) (cs : List Candidate) : OverlayPlan := cs.foldl (fun plan c => plan.push c.ends c.cost) plan

/- The loop keeps what the greedy choice keeps: it stops early when the nodes are in one part. -/
theorem spanGreedy {nodes : List String} {ds : DisjointSet} {s : Setoid String} {plan : OverlayPlan} {cs : List Candidate}
    (holds : Holds nodes ds s) (placed : ∀ c ∈ cs, Placed nodes c)
    (count : parts {a | a ∈ nodes} s + plan.links.length = nodes.length) :
    span nodes.length ds plan cs = pushAll plan (greedy Candidate.ends s cs) := by
  have finite : Finite {a | a ∈ nodes} := nodes.finite_toSet
  induction cs generalizing ds s plan with
  | nil => rfl
  | cons c rest ih =>
    obtain ⟨here,later⟩ := List.forall_mem_cons.mp placed
    obtain ⟨told,held⟩ := candidateHolds holds here
    obtain ⟨memA,memB⟩ := placedMem here
    rw [span]
    split
    · rename_i ds' same
      rw [same] at told held
      have joined : s c.ca c.cb := by simpa using told
      have skips : greedy Candidate.ends s (c :: rest) = greedy Candidate.ends s rest := greedyJoined joined rest
      have unmoved : join s c.ends = s := joinJoined joined
      rw [skips]
      exact ih (unmoved ▸ held) later count
    · rename_i ds' same
      rw [same] at told held
      have apart : ¬ s c.ends.1 c.ends.2 := told.mp rfl
      have fewer : parts {a | a ∈ nodes} s = parts {a | a ∈ nodes} (join s c.ends) + 1 := joinParts apart memA memB
      rw [greedyApart apart]
      have length : (plan.push (c.ca,c.cb) c.cost).links.length = plan.links.length + 1 := by
        simp [OverlayPlan.push]
      dsimp only
      split
      · rename_i full
        have one : parts {a | a ∈ nodes} (join s c.ends) ≤ 1 := by omega
        rw [greedyDone fun d mem => ?_]
        · rfl
        · obtain ⟨memA,memB⟩ := placedMem (later d mem)
          exact partsOne one memA memB
      · exact ih held later (by omega)

/- What candidates are sorted by. -/
def Candidate.key (c : Candidate) : UInt64 × String × String := (c.cost,c.ca,c.cb)

theorem sortedKeys (nodes : List String) (links : List WeightedLink) :
    (sortedCandidates nodes links).Pairwise fun x y => (compare x.key y.key).isLE := by
  exact sortedByKey Candidate.key _

theorem sortedCosts (nodes : List String) (links : List WeightedLink) :
    (sortedCandidates nodes links).Pairwise fun x y => x.cost.toNat ≤ y.cost.toNat := by
  refine (sortedKeys nodes links).imp fun {x y} below => ?_
  change ((compare x.cost y.cost).then _).isLE at below
  by_contra above
  have greater : compare x.cost y.cost = .gt := by
    rw [Std.compare_eq_gt]
    exact UInt64.lt_iff_toNat_lt.mpr (not_le.mp above)
  simp [greater] at below

theorem sortedPerm {nodes : List String} {links links' : List WeightedLink} (perm : links.Perm links') :
    (sortedCandidates nodes links).map Candidate.key = (sortedCandidates nodes links').map Candidate.key := by
  have sorted (links : List WeightedLink) :
      ((sortedCandidates nodes links).map Candidate.key).Pairwise fun x y => (compare x y).isLE :=
    List.pairwise_map.mpr (sortedKeys nodes links)
  refine List.Perm.eq_of_pairwise ?_ (sorted links) (sorted links') ?_
  · intro x y _ _ below above
    exact Std.LawfulEqCmp.eq_of_compare (Std.OrientedCmp.isLE_antisymm below above)
  · refine List.Perm.map _ ?_
    exact (List.perm_insertionSort _ _).trans ((perm.filterMap _).trans (List.perm_insertionSort _ _).symm)

/- Which links are candidates. -/
def Known (nodes : List String) (l : WeightedLink) : Prop := l.a ≠ l.b ∧ l.a ∈ nodes ∧ l.b ∈ nodes

theorem indexPlace {nodes : List String} {id : String} {i : Nat} (found : (index nodes)[id]? = some i) : nodes[i]? = some id := by
  rcases indexFold found with none | mem
  · simp at none
  · simpa using List.mem_zipIdx_iff_getElem?.mp mem

theorem indexKnown {nodes : List String} {id : String} (mem : id ∈ nodes) : ∃ i, (index nodes)[id]? = some i := by
  have kept (entries : List (String × Nat)) (known : BTreeMap String Nat)
      (later : (∃ i, known[id]? = some i) ∨ ∃ i, (id,i) ∈ entries) :
      ∃ i, (entries.foldl (fun known entry => known.insert entry.1 entry.2) known)[id]? = some i := by
    induction entries generalizing known with
    | nil => simpa using later
    | cons entry rest ih =>
      refine ih _ ?_
      by_cases same : id = entry.1
      · exact .inl ⟨entry.2,by rw [lookupInsert, if_pos same]⟩
      · refine later.imp ?_ ?_
        · rintro ⟨i,found⟩
          exact ⟨i,by rw [lookupInsert, if_neg same, found]⟩
        · rintro ⟨i,mem⟩
          refine ⟨i,(List.mem_cons.mp mem).resolve_left ?_⟩
          rintro rfl
          exact same rfl
  obtain ⟨i,place⟩ := List.mem_iff_getElem?.mp mem
  exact kept _ ∅ (.inr ⟨i,List.mem_zipIdx_iff_getElem?.mpr place⟩)

theorem candidateKnown {nodes : List String} {l : WeightedLink} (known : Known nodes l) :
    ∃ c, candidate (index nodes) l = some c := by
  obtain ⟨ia,foundA⟩ := indexKnown known.2.1
  obtain ⟨ib,foundB⟩ := indexKnown known.2.2
  exact ⟨_,by rw [candidate, if_neg known.1, foundA, foundB]; rfl⟩

theorem candidateOf {nodes : List String} {l : WeightedLink} {c : Candidate} (found : candidate (index nodes) l = some c) :
    Known nodes l ∧ c.ends = canon l.a l.b ∧ c.cost = l.cost ∧ Placed nodes c := by
  rw [candidate] at found
  split at found <;> try contradiction
  rename_i differ
  simp only [bind, Option.bind_eq_some_iff] at found
  obtain ⟨ia,foundA,ib,foundB,last⟩ := found
  cases Option.some.inj last
  have placeA := indexPlace foundA
  have placeB := indexPlace foundB
  refine ⟨⟨differ,List.mem_of_getElem? placeA,List.mem_of_getElem? placeB⟩,rfl,rfl,?_⟩
  dsimp only [Placed, canon]
  split
  · exact .inl ⟨placeA,placeB⟩
  · exact .inr ⟨placeA,placeB⟩

/- The graph of the links that join two different nodes. -/
def candidateGraph (nodes : List String) (links : List WeightedLink) : SimpleGraph String :=
  .fromRel fun a b => ∃ l ∈ links, Known nodes l ∧ l.a = a ∧ l.b = b

theorem candidatesGraph (nodes : List String) (links : List WeightedLink) :
    candidateGraph nodes links = graph Candidate.ends (links.filterMap (candidate (index nodes))) := by
  have forward {a b : String} {l : WeightedLink} (mem : l ∈ links) (known : Known nodes l) (ends : l.a = a ∧ l.b = b) :
      ∃ c ∈ links.filterMap (candidate (index nodes)), c.ends = (a,b) ∨ c.ends = (b,a) := by
    obtain ⟨c,found⟩ := candidateKnown known
    obtain ⟨_,same,_⟩ := candidateOf found
    refine ⟨c,List.mem_filterMap.mpr ⟨l,mem,found⟩,?_⟩
    rw [same, ends.1, ends.2, canon]
    split
    · exact .inl rfl
    · exact .inr rfl
  have backward {a b : String} {c : Candidate} (mem : c ∈ links.filterMap (candidate (index nodes))) (ends : c.ends = (a,b)) :
      ∃ l ∈ links, Known nodes l ∧ (l.a = a ∧ l.b = b ∨ l.a = b ∧ l.b = a) := by
    obtain ⟨l,inside,found⟩ := List.mem_filterMap.mp mem
    obtain ⟨known,same,_⟩ := candidateOf found
    refine ⟨l,inside,known,?_⟩
    rw [ends, canon] at same
    split at same
    · exact .inl ⟨(Prod.mk.inj same).1.symm,(Prod.mk.inj same).2.symm⟩
    · exact .inr ⟨(Prod.mk.inj same).2.symm,(Prod.mk.inj same).1.symm⟩
  ext a b
  rw [candidateGraph, graph, SimpleGraph.fromRel_adj, SimpleGraph.fromRel_adj]
  refine and_congr_right fun _ => ?_
  constructor
  · rintro (⟨l,mem,known,ends⟩ | ⟨l,mem,known,ends⟩)
    · obtain ⟨c,inside,same | same⟩ := forward mem known ends
      · exact .inl ⟨c,inside,same⟩
      · exact .inr ⟨c,inside,same⟩
    · obtain ⟨c,inside,same | same⟩ := forward mem known ends
      · exact .inr ⟨c,inside,same⟩
      · exact .inl ⟨c,inside,same⟩
  · rintro (⟨c,mem,ends⟩ | ⟨c,mem,ends⟩)
    · obtain ⟨l,inside,known,same | same⟩ := backward mem ends
      · exact .inl ⟨l,inside,known,same⟩
      · exact .inr ⟨l,inside,known,same⟩
    · obtain ⟨l,inside,known,same | same⟩ := backward mem ends
      · exact .inr ⟨l,inside,known,same⟩
      · exact .inl ⟨l,inside,known,same⟩

theorem saturatingAddMin (a b : UInt64) : (saturatingAdd a b).toNat = min (a.toNat + b.toNat) (2 ^ 64 - 1) := by
  by_cases bound : a.toNat + b.toNat < 2 ^ 64
  · rw [saturatingAddExact bound]
    omega
  · rw [saturatingAdd, checkedAdd, if_neg bound]
    show 2 ^ 64 - 1 = _
    omega

theorem pushLinks (plan : OverlayPlan) (cs : List Candidate) :
    (pushAll plan cs).links = plan.links ++ cs.map Candidate.ends := by
  induction cs generalizing plan with
  | nil => simp [pushAll]
  | cons c rest ih =>
    refine (ih _).trans ?_
    simp [OverlayPlan.push]

theorem pushCost (plan : OverlayPlan) (cs : List Candidate) :
    (pushAll plan cs).totalCost.toNat = min (plan.totalCost.toNat + (cs.map fun c => c.cost.toNat).sum) (2 ^ 64 - 1) := by
  induction cs generalizing plan with
  | nil =>
    have bound := plan.totalCost.toNat_lt
    show plan.totalCost.toNat = _
    simp only [List.map_nil, List.sum_nil]
    omega
  | cons c rest ih =>
    refine (ih _).trans ?_
    simp only [OverlayPlan.push, saturatingAddMin, List.map_cons, List.sum_cons]
    omega

theorem pushKeys (plan : OverlayPlan) (cs : List Candidate) :
    pushAll plan cs = (cs.map Candidate.key).foldl (fun plan key => plan.push key.2 key.1) plan := by
  rw [List.foldl_map]
  rfl

/- The links that the plan keeps, as candidates. -/
noncomputable def kept (nodes : List String) (links : List WeightedLink) : List Candidate :=
  greedy Candidate.ends ⊥ (sortedCandidates nodes links)

theorem sortedMem {nodes : List String} {links : List WeightedLink} {c : Candidate} :
    c ∈ sortedCandidates nodes links ↔ ∃ l ∈ links, candidate (index nodes) l = some c := by
  rw [sortedCandidates, List.mem_insertionSort, List.mem_filterMap]

theorem sortedPlaced {nodes : List String} {links : List WeightedLink} {c : Candidate}
    (mem : c ∈ sortedCandidates nodes links) : Placed nodes c := by
  obtain ⟨l,_,found⟩ := sortedMem.mp mem
  exact (candidateOf found).2.2.2

theorem nodesApart {nodes : List String} (distinct : nodes.Nodup) : parts {a | a ∈ nodes} ⊥ = nodes.length := by
  rw [partsBot, ← List.toFinset_card_of_nodup distinct, ← Fintype.card_coe, ← Nat.card_eq_fintype_card]
  exact Nat.card_congr (Equiv.subtypeEquivRight fun a => List.mem_toFinset.symm)

theorem overlayGreedy {nodes : List String} (distinct : nodes.Nodup) (links : List WeightedLink) :
    minLatencyOverlay nodes links =
      { pushAll {} (kept nodes links) with connected := (kept nodes links).length = nodes.length - 1 } := by
  have count : parts {a | a ∈ nodes} ⊥ + ({} : OverlayPlan).links.length = nodes.length := nodesApart distinct
  have spans : span nodes.length (.new nodes.length) {} (sortedCandidates nodes links) = pushAll {} (kept nodes links) :=
    spanGreedy (newHolds distinct) (fun c mem => sortedPlaced mem) count
  rw [minLatencyOverlay, spans]
  have length : (pushAll {} (kept nodes links)).links.length = (kept nodes links).length := by
    simp [pushLinks]
  dsimp only
  rw [← length]

/- The order of the links does not count. -/
theorem overlayPerm {nodes : List String} (distinct : nodes.Nodup) {links links' : List WeightedLink}
    (perm : links.Perm links') : minLatencyOverlay nodes links = minLatencyOverlay nodes links' := by
  have same : (kept nodes links).map Candidate.key = (kept nodes links').map Candidate.key := by
    have read (links : List WeightedLink) : (kept nodes links).map Candidate.key =
        greedy Prod.snd ⊥ ((sortedCandidates nodes links).map Candidate.key) :=
      @greedyMap String Candidate Candidate.ends ⊥ _ Prod.snd Candidate.key (fun _ => rfl) _
    rw [read, read, sortedPerm perm]
  have length : (kept nodes links).length = (kept nodes links').length := by
    simpa using congrArg List.length same
  rw [overlayGreedy distinct, overlayGreedy distinct, pushKeys, pushKeys, same, length]

theorem keptGraph (nodes : List String) (links : List WeightedLink) (a b : String) :
    (graph Candidate.ends (kept nodes links)).Reachable a b ↔ (candidateGraph nodes links).Reachable a b := by
  rw [candidatesGraph, graphReachable, graphReachable, kept, greedySpans]
  have same : joinAll Candidate.ends ⊥ (sortedCandidates nodes links) =
      joinAll Candidate.ends ⊥ (links.filterMap (candidate (index nodes))) := by
    apply le_antisymm <;> refine joinAllMono fun c mem => ?_
    · exact (List.mem_insertionSort _).mp mem
    · exact (List.mem_insertionSort _).mpr mem
  rw [same]

/- The nodes are in one part just if the plan has a link less than there are nodes. -/
theorem keptConnects {nodes : List String} (distinct : nodes.Nodup) (links : List WeightedLink) :
    (kept nodes links).length = nodes.length - 1 ↔
      ∀ a ∈ nodes, ∀ b ∈ nodes, (candidateGraph nodes links).Reachable a b := by
  have finite : Finite {a | a ∈ nodes} := nodes.finite_toSet
  have forest : Forest Candidate.ends ⊥ (kept nodes links) := greedyForest _
  have count : parts {a | a ∈ nodes} ⊥ = parts {a | a ∈ nodes} (joinAll Candidate.ends ⊥ (kept nodes links)) + _ :=
    forestCount forest fun c mem => placedMem (sortedPlaced ((greedySublist _).subset mem))
  have reached (a b : String) : (candidateGraph nodes links).Reachable a b ↔ joinAll Candidate.ends ⊥ (kept nodes links) a b := by
    rw [← keptGraph, graphReachable]
  rw [nodesApart distinct] at count
  constructor
  · intro full a memA b memB
    have inhabited := List.length_pos_of_mem memA
    have one : parts {a | a ∈ nodes} (joinAll Candidate.ends ⊥ (kept nodes links)) ≤ 1 := by omega
    exact (reached a b).mpr (partsOne one memA memB)
  · intro connected
    have one : parts {a | a ∈ nodes} (joinAll Candidate.ends ⊥ (kept nodes links)) ≤ 1 :=
      partsJoined fun a memA b memB => (reached a b).mp (connected a memA b memB)
    cases nodes with
    | nil =>
      rw [List.length_nil] at count ⊢
      omega
    | cons a rest =>
      have member : a ∈ {b | b ∈ a :: rest} := List.mem_cons_self
      have inhabited := partsSome member (joinAll Candidate.ends ⊥ (kept (a :: rest) links))
      omega

def totalLatency (links : List WeightedLink) : Nat := (links.map fun l => l.cost.toNat).sum

/- Some of the links that join all that the links join. -/
structure Spans (nodes : List String) (links some' : List WeightedLink) : Prop where
  taken : ∀ l ∈ some', l ∈ links
  joined : ∀ a b, (candidateGraph nodes some').Reachable a b ↔ (candidateGraph nodes links).Reachable a b

theorem candidateCosts (nodes : List String) (links : List WeightedLink) :
    ((links.filterMap (candidate (index nodes))).map fun c => c.cost.toNat).sum ≤ totalLatency links := by
  induction links with
  | nil => exact le_rfl
  | cons l rest ih =>
    have step : totalLatency (l :: rest) = l.cost.toNat + totalLatency rest := List.sum_cons
    rw [step]
    cases found : candidate (index nodes) l with
    | none =>
      rw [List.filterMap_cons_none found]
      omega
    | some c =>
      rw [List.filterMap_cons_some found, List.map_cons, List.sum_cons, (candidateOf found).2.2.1]
      omega

/- The kept candidates come from links. -/
theorem candidateSource {nodes : List String} {links : List WeightedLink} {cs : List Candidate}
    (from' : ∀ c ∈ cs, ∃ l ∈ links, candidate (index nodes) l = some c) :
    ∃ chosen : List WeightedLink, (∀ l ∈ chosen, l ∈ links ∧ Known nodes l) ∧
      chosen.map (fun l => canon l.a l.b) = cs.map Candidate.ends ∧
      totalLatency chosen = (cs.map fun c => c.cost.toNat).sum := by
  induction cs with
  | nil => exact ⟨[],by simp,rfl,rfl⟩
  | cons c rest ih =>
    obtain ⟨here,later⟩ := List.forall_mem_cons.mp from'
    obtain ⟨l,mem,found⟩ := here
    obtain ⟨chosen,inside,ends,total⟩ := ih later
    obtain ⟨known,same,cost,_⟩ := candidateOf found
    refine ⟨l :: chosen,List.forall_mem_cons.mpr ⟨⟨mem,known⟩,inside⟩,?_,?_⟩
    · rw [List.map_cons, List.map_cons, ends, same]
    · have step : totalLatency (l :: chosen) = l.cost.toNat + totalLatency chosen := List.sum_cons
      rw [step, total, List.map_cons, List.sum_cons, cost]

theorem keptLeast {nodes : List String} {links others : List WeightedLink} (spans : Spans nodes links others) :
    ((kept nodes links).map fun c => c.cost.toNat).sum ≤ totalLatency others := by
  calc ((kept nodes links).map fun c => c.cost.toNat).sum
      ≤ ((others.filterMap (candidate (index nodes))).map fun c => c.cost.toNat).sum := by
        refine greedyMinimal (sortedCosts nodes links) ?_ (Setoid.ext fun a b => ?_)
        · intro c mem
          obtain ⟨l,inside,found⟩ := List.mem_filterMap.mp mem
          exact sortedMem.mpr ⟨l,spans.taken l inside,found⟩
        · rw [← graphReachable, ← candidatesGraph, spans.joined, ← keptGraph, graphReachable, kept, greedySpans]
    _ ≤ totalLatency others := candidateCosts nodes others

/- The graph of the planned links. -/
def OverlayPlan.graph (p : OverlayPlan) : SimpleGraph String := .fromRel fun a b => (a,b) ∈ p.links

theorem overlayLinks {nodes : List String} (distinct : nodes.Nodup) (links : List WeightedLink) :
    (minLatencyOverlay nodes links).links = (kept nodes links).map Candidate.ends := by
  rw [overlayGreedy distinct]
  exact pushLinks {} _

theorem overlayGraph {nodes : List String} (distinct : nodes.Nodup) (links : List WeightedLink) :
    (minLatencyOverlay nodes links).graph = graph Candidate.ends (kept nodes links) := by
  ext a b
  simp only [OverlayPlan.graph, graph, overlayLinks distinct, SimpleGraph.fromRel_adj, List.mem_map]

/- The planned links are a spanning forest of least latency, the flag tells whether the candidates
connect the nodes, and the order in which the links come does not count. -/
theorem overlaySpansLeast (nodes : List String) (distinct : nodes.Nodup) (links : List WeightedLink) :
    let plan := minLatencyOverlay nodes links
    (plan.graph.IsAcyclic ∧ plan.links.Nodup ∧
      ∀ a b, plan.graph.Reachable a b ↔ (candidateGraph nodes links).Reachable a b) ∧
    (∃ chosen : List WeightedLink, (∀ l ∈ chosen, l ∈ links ∧ Known nodes l) ∧
      plan.links = chosen.map (fun l => canon l.a l.b) ∧
      plan.totalCost.toNat = min (totalLatency chosen) (2 ^ 64 - 1) ∧
      ∀ others, Spans nodes links others → totalLatency chosen ≤ totalLatency others) ∧
    (plan.connected = true ↔ ∀ a ∈ nodes, ∀ b ∈ nodes, (candidateGraph nodes links).Reachable a b) ∧
    ∀ links', links.Perm links' → minLatencyOverlay nodes links' = plan := by
  intro plan
  have forest : Forest Candidate.ends ⊥ (kept nodes links) := greedyForest _
  have planned : plan.links = (kept nodes links).map Candidate.ends := overlayLinks distinct links
  refine ⟨⟨?_,?_,?_⟩,?_,?_,?_⟩
  · rw [overlayGraph distinct]
    exact forestAcyclic forest
  · rw [planned]
    exact forestNodup forest
  · intro a b
    rw [overlayGraph distinct]
    exact keptGraph nodes links a b
  · have sources : ∀ c ∈ kept nodes links, ∃ l ∈ links, candidate (index nodes) l = some c :=
      fun c mem => sortedMem.mp ((greedySublist _).subset mem)
    obtain ⟨chosen,inside,ends,total⟩ := candidateSource sources
    refine ⟨chosen,inside,planned.trans ends.symm,?_,?_⟩
    · rw [total, show plan = _ from overlayGreedy distinct links]
      refine (pushCost {} _).trans ?_
      show min (0 + _) _ = _
      rw [Nat.zero_add]
    · intro others spans
      rw [total]
      exact keptLeast spans
  · rw [show plan = _ from overlayGreedy distinct links, ← keptConnects distinct]
    exact decide_eq_true_iff
  · intro links' perm
    exact (overlayPerm distinct perm).symm

/- Two links between one pair, one of them a self-link's neighbour of equal cost. -/
theorem threeNodesSpanned :
    (minLatencyOverlay ["a","b","c"] [⟨"b","a",5⟩,⟨"c","c",0⟩,⟨"a","b",3⟩,⟨"c","b",3⟩,⟨"a","x",1⟩]).links =
        [("a","b"),("b","c")] ∧
      (candidateGraph ["a","b","c"] [⟨"b","a",5⟩,⟨"c","c",0⟩,⟨"a","b",3⟩,⟨"c","b",3⟩,⟨"a","x",1⟩]).Reachable "a" "c" := by
  have links : (minLatencyOverlay ["a","b","c"] [⟨"b","a",5⟩,⟨"c","c",0⟩,⟨"a","b",3⟩,⟨"c","b",3⟩,⟨"a","x",1⟩]).connected = true := by
    decide +kernel
  refine ⟨by decide +kernel,?_⟩
  exact (overlaySpansLeast ["a","b","c"] (by decide) _).2.2.1.mp links "a" (by simp) "c" (by simp)

end CadsTunnel.Overlay
