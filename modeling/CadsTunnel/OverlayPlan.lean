import CadsTunnel.Words
import CadsTunnel.NetworkPolicy

/-! The overlay of a declared network: a spanning forest of least latency over the
channels that the policy allows, then shortcuts within a budget. Both phases only
ever take links from the list they are given, so what the policy says of a channel
holds of every planned link. -/
namespace CadsTunnel.Overlay
open Words OrderedMap NetworkPolicy

structure WeightedLink where
  a : String
  b : String
  cost : UInt64
  deriving DecidableEq, Repr

structure OverlayPlan where
  links : List (String × String) := []
  totalCost : UInt64 := 0
  connected : Bool := false
  deriving DecidableEq, Repr

structure DisjointSet where
  parent : List Nat
  size : List Nat
  deriving DecidableEq, Repr

namespace DisjointSet

def new (n : Nat) : DisjointSet := ⟨List.range n,List.replicate n 1⟩

def parentOf (ds : DisjointSet) (x : Nat) : Nat := ds.parent.getD x 0
def sizeOf (ds : DisjointSet) (x : Nat) : Nat := ds.size.getD x 0

def halve (ds : DisjointSet) (x : Nat) : DisjointSet :=
  { ds with parent := ds.parent.set x (ds.parentOf (ds.parentOf x)) }

def findFrom : Nat → DisjointSet → Nat → Nat × DisjointSet
  | 0, ds, x => (x,ds)
  | fuel + 1, ds, x =>
    if ds.parentOf x = x then (x,ds)
    else
      let ds := ds.halve x
      findFrom fuel ds (ds.parentOf x)

/- Sizes grow along the parents, so their sum bounds the walk to the root. -/
def find (ds : DisjointSet) (x : Nat) : Nat × DisjointSet := findFrom ds.size.sum ds x

def attach (ds : DisjointSet) (big small : Nat) : DisjointSet :=
  ⟨ds.parent.set small big,ds.size.set big (ds.sizeOf big + ds.sizeOf small)⟩

def union (ds : DisjointSet) (x y : Nat) : Bool × DisjointSet :=
  let (rx,ds) := ds.find x
  let (ry,ds) := ds.find y
  if rx = ry then (false,ds)
  else if ds.sizeOf rx ≥ ds.sizeOf ry then (true,ds.attach rx ry)
  else (true,ds.attach ry rx)

/- Every element has a parent, and every parent that is not its own child weighs more than the child. -/
structure WellFormed (n : Nat) (ds : DisjointSet) : Prop where
  parents : ds.parent.length = n
  sizes : ds.size.length = n
  inside : ∀ x < n, ds.parentOf x < n
  positive : ∀ x < n, 0 < ds.sizeOf x
  grows : ∀ x < n, ds.parentOf x ≠ x → ds.sizeOf x < ds.sizeOf (ds.parentOf x)

theorem newWellFormed (n : Nat) : (new n).WellFormed n where
  parents := List.length_range
  sizes := List.length_replicate
  inside := by
    intro x bound
    simp [new, parentOf, bound]
  positive := by
    intro x bound
    simp [new, sizeOf, bound]
  grows := by
    intro x bound moved
    simp [new, parentOf, bound] at moved

theorem readSet {α : Type} {cells : List α} {i j : Nat} {v default : α} (bound : i < cells.length) :
    (cells.set i v).getD j default = if j = i then v else cells.getD j default := by
  simp only [List.getD_eq_getElem?_getD, List.getElem?_set]
  split
  · rename_i same
    simp [← same]
  · rename_i differ
    rw [if_neg (Ne.symm differ)]

theorem parentHalve {n : Nat} {ds : DisjointSet} (formed : ds.WellFormed n) {x : Nat} (bound : x < n) (y : Nat) :
    (ds.halve x).parentOf y = if y = x then ds.parentOf (ds.parentOf x) else ds.parentOf y :=
  readSet (formed.parents ▸ bound)

theorem parentHeavier {n : Nat} {ds : DisjointSet} (formed : ds.WellFormed n) {x : Nat} (bound : x < n) :
    ds.sizeOf x ≤ ds.sizeOf (ds.parentOf x) := by
  by_cases root : ds.parentOf x = x
  · rw [root]
  · exact (formed.grows x bound root).le

theorem halveWellFormed {n : Nat} {ds : DisjointSet} (formed : ds.WellFormed n) {x : Nat} (bound : x < n)
    (moved : ds.parentOf x ≠ x) : (ds.halve x).WellFormed n where
  parents := (List.length_set ..).trans formed.parents
  sizes := formed.sizes
  inside := by
    intro y inside
    rw [parentHalve formed bound]
    split
    · exact formed.inside _ (formed.inside x bound)
    · exact formed.inside y inside
  positive := formed.positive
  grows := by
    intro y inside differ
    rw [parentHalve formed bound] at differ ⊢
    split
    · rename_i same
      subst same
      calc ds.sizeOf y < ds.sizeOf (ds.parentOf y) := formed.grows y bound moved
        _ ≤ ds.sizeOf (ds.parentOf (ds.parentOf y)) := parentHeavier formed (formed.inside y bound)
    · rename_i other
      rw [if_neg other] at differ
      exact formed.grows y inside differ

theorem sizeLeSum (ds : DisjointSet) (x : Nat) : ds.sizeOf x ≤ ds.size.sum := by
  rw [sizeOf, List.getD_eq_getElem?_getD]
  cases found : ds.size[x]? with
  | none => exact Nat.zero_le _
  | some s => exact List.single_le_sum (fun _ _ => Nat.zero_le _) s (List.mem_of_getElem? found)

/- A walk that has more fuel than the weight still above it stops at a root. -/
theorem findFromRoot {n fuel : Nat} {ds : DisjointSet} (formed : ds.WellFormed n) {x : Nat} (bound : x < n)
    (enough : ds.size.sum < fuel + ds.sizeOf x) :
    (findFrom fuel ds x).2.WellFormed n ∧ (findFrom fuel ds x).1 < n ∧
      (findFrom fuel ds x).2.parentOf (findFrom fuel ds x).1 = (findFrom fuel ds x).1 := by
  induction fuel generalizing ds x with
  | zero =>
    have heavy := ds.sizeLeSum x
    omega
  | succ fuel ih =>
    rw [findFrom]
    split
    · rename_i root
      exact ⟨formed,bound,root⟩
    · rename_i moved
      have up : (ds.halve x).parentOf x = ds.parentOf (ds.parentOf x) := by
        rw [parentHalve formed bound, if_pos rfl]
      have first := formed.grows x bound moved
      have next := parentHeavier formed (formed.inside x bound)
      refine ih (halveWellFormed formed bound moved) ?_ ?_
      · rw [up]
        exact formed.inside _ (formed.inside x bound)
      · rw [up]
        show ds.size.sum < fuel + ds.sizeOf (ds.parentOf (ds.parentOf x))
        omega

theorem findRoot {n : Nat} {ds : DisjointSet} (formed : ds.WellFormed n) {x : Nat} (bound : x < n) :
    (ds.find x).2.WellFormed n ∧ (ds.find x).1 < n ∧ (ds.find x).2.parentOf (ds.find x).1 = (ds.find x).1 := by
  have positive := formed.positive x bound
  exact findFromRoot formed bound (by omega)

/- Path halving moves only elements that are no roots. -/
theorem findFromKeepsRoot {n fuel : Nat} {ds : DisjointSet} (formed : ds.WellFormed n) {x r : Nat} (bound : x < n)
    (root : ds.parentOf r = r) : (findFrom fuel ds x).2.parentOf r = r := by
  induction fuel generalizing ds x with
  | zero => exact root
  | succ fuel ih =>
    rw [findFrom]
    split
    · exact root
    · rename_i moved
      have other : r ≠ x := by
        intro same
        subst same
        exact moved root
      have kept : (ds.halve x).parentOf r = r := by
        rw [parentHalve formed bound, if_neg other, root]
      have halved := halveWellFormed formed bound moved
      exact ih halved (halved.inside x bound) kept

theorem parentAttach {n : Nat} {ds : DisjointSet} (formed : ds.WellFormed n) {big small : Nat} (bound : small < n) (y : Nat) :
    (ds.attach big small).parentOf y = if y = small then big else ds.parentOf y :=
  readSet (formed.parents ▸ bound)

theorem sizeAttach {n : Nat} {ds : DisjointSet} (formed : ds.WellFormed n) {big small : Nat} (bound : big < n) (y : Nat) :
    (ds.attach big small).sizeOf y = if y = big then ds.sizeOf big + ds.sizeOf small else ds.sizeOf y :=
  readSet (formed.sizes ▸ bound)

theorem attachWellFormed {n : Nat} {ds : DisjointSet} (formed : ds.WellFormed n) {big small : Nat} (bigIn : big < n)
    (smallIn : small < n) (bigRoot : ds.parentOf big = big) (differ : big ≠ small) :
    (ds.attach big small).WellFormed n where
  parents := (List.length_set ..).trans formed.parents
  sizes := (List.length_set ..).trans formed.sizes
  inside := by
    intro y inside
    rw [parentAttach formed smallIn]
    split
    · exact bigIn
    · exact formed.inside y inside
  positive := by
    intro y inside
    have before := formed.positive y inside
    have heavy := formed.positive big bigIn
    rw [sizeAttach formed bigIn]
    split <;> omega
  grows := by
    intro y inside moved
    have heavy := formed.positive big bigIn
    rw [parentAttach formed smallIn] at moved ⊢
    rw [sizeAttach formed bigIn, sizeAttach formed bigIn]
    by_cases attached : y = small
    · subst attached
      rw [if_neg (Ne.symm differ), if_pos rfl, if_pos rfl]
      omega
    · rw [if_neg attached] at moved ⊢
      have before := formed.grows y inside moved
      have notBig : y ≠ big := fun same => moved (same ▸ bigRoot)
      rw [if_neg notBig]
      split
      · rename_i toBig
        rw [toBig] at before
        omega
      · exact before

theorem unionWellFormed {n : Nat} {ds : DisjointSet} (formed : ds.WellFormed n) {x y : Nat} (xIn : x < n) (yIn : y < n) :
    (ds.union x y).2.WellFormed n := by
  obtain ⟨firstFormed,rxIn,rxRoot⟩ := findRoot formed xIn
  obtain ⟨secondFormed,ryIn,ryRoot⟩ := findRoot firstFormed yIn
  rw [union]
  dsimp only
  split
  · exact secondFormed
  · rename_i differ
    split
    · have kept : ((ds.find x).2.find y).2.parentOf (ds.find x).1 = (ds.find x).1 :=
        findFromKeepsRoot firstFormed yIn rxRoot
      exact attachWellFormed secondFormed rxIn ryIn kept differ
    · exact attachWellFormed secondFormed ryIn rxIn ryRoot (Ne.symm differ)

/- After any unions, looking up an element ends at a root. -/
theorem lookupsEnd (n : Nat) (pairs : List (Nat × Nat)) (inside : ∀ pair ∈ pairs, pair.1 < n ∧ pair.2 < n) (x : Nat)
    (bound : x < n) :
    let ds := pairs.foldl (fun ds pair => (ds.union pair.1 pair.2).2) (new n)
    (ds.find x).2.parentOf (ds.find x).1 = (ds.find x).1 := by
  have formed := List.foldlRecOn pairs (fun ds pair => (ds.union pair.1 pair.2).2) (motive := WellFormed n) (newWellFormed n)
    (fun ds formed pair mem => unionWellFormed formed (inside pair mem).1 (inside pair mem).2)
  exact (findRoot formed bound).2.2

end DisjointSet

def canon (a b : String) : String × String := if a ≤ b then (a,b) else (b,a)

/- A repeated node keeps its last position. -/
def index (nodes : List String) : BTreeMap String Nat :=
  nodes.zipIdx.foldl (fun known entry => known.insert entry.1 entry.2) ∅

/- A candidate link with its ends in order and their positions. -/
structure Candidate where
  cost : UInt64
  ca : String
  cb : String
  ia : Nat
  ib : Nat
  deriving DecidableEq, Repr

def candidate (known : BTreeMap String Nat) (l : WeightedLink) : Option Candidate :=
  if l.a = l.b then none
  else do
    let ia ← known[l.a]?
    let ib ← known[l.b]?
    some ⟨l.cost,(canon l.a l.b).1,(canon l.a l.b).2,ia,ib⟩

def Candidate.le (x y : Candidate) : Bool :=
  ((compare x.cost y.cost).then ((compare x.ca y.ca).then (compare x.cb y.cb))).isLE

/- The sort is stable: candidates of one cost and one pair stay in the order of the links. -/
def sortedCandidates (nodes : List String) (links : List WeightedLink) : List Candidate :=
  (links.filterMap (candidate (index nodes))).insertionSort (fun x y => x.le y)

def OverlayPlan.push (p : OverlayPlan) (link : String × String) (cost : UInt64) : OverlayPlan :=
  { p with links := p.links ++ [link], totalCost := saturatingAdd p.totalCost cost }

def span (n : Nat) (ds : DisjointSet) (plan : OverlayPlan) : List Candidate → OverlayPlan
  | [] => plan
  | c :: rest =>
    match ds.union c.ia c.ib with
    | (false,ds) => span n ds plan rest
    | (true,ds) =>
      let plan := plan.push (c.ca,c.cb) c.cost
      if plan.links.length = n - 1 then plan else span n ds plan rest

def minLatencyOverlay (nodes : List String) (links : List WeightedLink) : OverlayPlan :=
  let plan := span nodes.length (.new nodes.length) {} (sortedCandidates nodes links)
  { plan with connected := plan.links.length = nodes.length - 1 }

/- Two positions, the smaller first. -/
abbrev Edge := Nat × Nat

def edgeOf (known : BTreeMap String Nat) (a b : String) : Option Edge := do
  let ia ← known[a]?
  let ib ← known[b]?
  some (min ia ib,max ia ib)

def noteCost (known : BTreeMap String Nat) (cost : BTreeMap Edge UInt64) (l : WeightedLink) : BTreeMap Edge UInt64 :=
  if l.a = l.b then cost
  else
    match edgeOf known l.a l.b with
    | none => cost
    | some edge =>
      match cost[edge]? with
      | some c => cost.insert edge (min c l.cost)
      | none => cost.insert edge l.cost

def cheapest (known : BTreeMap String Nat) (links : List WeightedLink) : BTreeMap Edge UInt64 :=
  links.foldl (noteCost known) ∅

def chosenOf (known : BTreeMap String Nat) (base : OverlayPlan) : BTreeSet Edge :=
  (base.links.filterMap (fun link => edgeOf known link.1 link.2)).foldl (fun chosen edge => chosen.insert edge) ∅

/- Latencies between positions; `inf` stands for no path. -/
abbrev Distances := List (List UInt64)

def inf : UInt64 := .ofNat ((2 ^ 64 - 1) / 4)

namespace Distances

def latency (d : Distances) (i j : Nat) : UInt64 := (d.getD i []).getD j inf

def put (d : Distances) (i j : Nat) (v : UInt64) : Distances := d.modify i (fun row => row.set j v)

def lower (d : Distances) (i j : Nat) (v : UInt64) : Distances := if v < d.latency i j then d.put i j v else d

def start (n : Nat) : Distances := (List.range n).map (fun i => (List.replicate n inf).set i 0)

/- A chosen link without a known cost counts as no path. -/
def seed (cost : BTreeMap Edge UInt64) (d : Distances) (edge : Edge) : Distances :=
  let c := cost[edge]?.getD inf
  let d := d.put edge.1 edge.2 (min (d.latency edge.1 edge.2) c)
  d.put edge.2 edge.1 (min (d.latency edge.2 edge.1) c)

def through (k i : Nat) (d : Distances) (j : Nat) : Distances :=
  d.lower i j (saturatingAdd (d.latency i k) (d.latency k j))

def pivotRow (n k : Nat) (d : Distances) (i : Nat) : Distances :=
  if d.latency i k = inf then d else (List.range n).foldl (through k i) d

def pivot (n : Nat) (d : Distances) (k : Nat) : Distances := (List.range n).foldl (pivotRow n k) d

def allPairs (n : Nat) (cost : BTreeMap Edge UInt64) (chosen : BTreeSet Edge) : Distances :=
  (List.range n).foldl (pivot n) (chosen.toList.foldl (seed cost) (start n))

/- One row after a new link of weight `w`, with the rows of its ends as they were before it. -/
def relaxRow (n : Nat) (rowA rowB : List UInt64) (w : UInt64) (d : Distances) (i : Nat) : Distances :=
  if rowA.getD i inf = inf ∧ rowB.getD i inf = inf then d
  else
    let viaA := saturatingAdd (rowA.getD i inf) w
    let viaB := saturatingAdd (rowB.getD i inf) w
    (List.range n).foldl (fun d j =>
      let d := d.lower i j (saturatingAdd viaA (rowB.getD j inf))
      d.lower i j (saturatingAdd viaB (rowA.getD j inf))) d

def relax (n : Nat) (d : Distances) (edge : Edge) (w : UInt64) : Distances :=
  (List.range n).foldl (relaxRow n (d.getD edge.1 []) (d.getD edge.2 []) w) d

end Distances

/- The state of the budget loop. -/
structure Shortcuts where
  chosen : BTreeSet Edge
  dist : Distances
  plan : OverlayPlan

/- The larger improvement wins and then the smaller pair, in whatever order the costs are visited. -/
def better (best : Option (Edge × UInt64)) (edge : Edge) (improvement : UInt64) : Bool :=
  match best with
  | none => true
  | some (pair,bi) => improvement > bi || (improvement = bi && compare edge pair = .lt)

namespace Shortcuts

def consider (s : Shortcuts) (best : Option (Edge × UInt64)) (entry : Edge × UInt64) : Option (Edge × UInt64) :=
  if entry.1 ∈ s.chosen then best
  else
    let improvement := saturatingSub (s.dist.latency entry.1.1 entry.1.2) entry.2
    if improvement = 0 then best
    else if better best entry.1 improvement then some (entry.1,improvement)
    else best

def best (s : Shortcuts) (cost : BTreeMap Edge UInt64) : Option (Edge × UInt64) := cost.toList.foldl s.consider none

def add (nodes : List String) (cost : BTreeMap Edge UInt64) (s : Shortcuts) (edge : Edge) : Shortcuts :=
  let w := cost[edge]?.getD inf
  ⟨s.chosen.insert edge,s.dist.relax nodes.length edge w,
    s.plan.push (canon (nodes.getD edge.1 "") (nodes.getD edge.2 "")) w⟩

def rounds (nodes : List String) (cost : BTreeMap Edge UInt64) : Nat → Shortcuts → Shortcuts
  | 0, s => s
  | budget + 1, s =>
    match s.best cost with
    | none => s
    | some (edge,_) => rounds nodes cost budget (s.add nodes cost edge)

end Shortcuts

def addShortcuts (nodes : List String) (links : List WeightedLink) (base : OverlayPlan) (budget : Nat) : OverlayPlan :=
  if nodes.length < 2 ∨ budget = 0 then base
  else
    let cost := cheapest (index nodes) links
    let chosen := chosenOf (index nodes) base
    (Shortcuts.rounds nodes cost budget ⟨chosen,.allPairs nodes.length cost chosen,base⟩).plan

/- Every pair is asked for its latency once, so the answers are a function of the pair. -/
def planNetworkOverlay (n : Network) (latency : String → String → Option UInt64) (shortcutBudget : Nat) : OverlayPlan :=
  let nodes := n.agents.map Agent.id
  let links := n.desiredChannels.toList.filterMap (fun p => (latency p.1 p.2).map (fun c => ⟨p.1,p.2,c⟩))
  addShortcuts nodes links (minLatencyOverlay nodes links) shortcutBudget

/- The link joins the ends of a candidate. -/
def Offered (links : List WeightedLink) (link : String × String) : Prop := ∃ l ∈ links, canon l.a l.b = link

theorem candidateOffered {known : BTreeMap String Nat} {l : WeightedLink} {c : Candidate}
    (found : candidate known l = some c) : canon l.a l.b = (c.ca,c.cb) := by
  rw [candidate] at found
  split at found <;> try contradiction
  simp only [bind, Option.bind_eq_some_iff] at found
  obtain ⟨ia,_,ib,_,last⟩ := found
  cases Option.some.inj last
  rfl

theorem spanLinks {n : Nat} {ds : DisjointSet} {plan : OverlayPlan} {cs : List Candidate} {link : String × String}
    (planned : link ∈ (span n ds plan cs).links) : link ∈ plan.links ∨ ∃ c ∈ cs, (c.ca,c.cb) = link := by
  induction cs generalizing ds plan with
  | nil => exact .inl planned
  | cons c rest ih =>
    have pushed : link ∈ (plan.push (c.ca,c.cb) c.cost).links → link ∈ plan.links ∨ ∃ c' ∈ c :: rest, (c'.ca,c'.cb) = link := by
      intro mem
      rcases List.mem_append.mp mem with old | new
      · exact .inl old
      · exact .inr ⟨c,by simp,(List.mem_singleton.mp new).symm⟩
    have later : (∃ c' ∈ rest, (c'.ca,c'.cb) = link) → ∃ c' ∈ c :: rest, (c'.ca,c'.cb) = link := by
      intro found
      obtain ⟨c',mem,same⟩ := found
      exact ⟨c',List.mem_cons_of_mem c mem,same⟩
    rw [span] at planned
    split at planned
    · exact (ih planned).imp id later
    · simp only at planned
      split at planned
      · exact pushed planned
      · rcases ih planned with old | new
        · exact pushed old
        · exact .inr (later new)

theorem minLatencyOffered {nodes : List String} {links : List WeightedLink} {link : String × String}
    (planned : link ∈ (minLatencyOverlay nodes links).links) : Offered links link := by
  rcases spanLinks planned with none | ⟨c,mem,same⟩
  · simp at none
  · rw [sortedCandidates, List.mem_insertionSort] at mem
    obtain ⟨l,inside,found⟩ := List.mem_filterMap.mp mem
    exact ⟨l,inside,(candidateOffered found).trans same⟩

theorem indexFold {entries : List (String × Nat)} {known : BTreeMap String Nat} {id : String} {i : Nat}
    (found : (entries.foldl (fun known entry => known.insert entry.1 entry.2) known)[id]? = some i) :
    known[id]? = some i ∨ (id,i) ∈ entries := by
  induction entries generalizing known with
  | nil => exact .inl found
  | cons entry rest ih =>
    rcases ih found with old | later
    · rw [lookupInsert] at old
      split at old
      · rename_i same
        cases Option.some.inj old
        exact .inr (by simp [same])
      · exact .inl old
    · exact .inr (List.mem_cons_of_mem entry later)

theorem indexNode {nodes : List String} {id : String} {i : Nat} (found : (index nodes)[id]? = some i) :
    nodes.getD i "" = id := by
  rcases indexFold found with none | mem
  · simp at none
  · have here : nodes[i]? = some id := by simpa using List.mem_zipIdx_iff_getElem?.mp mem
    rw [List.getD_eq_getElem?_getD, here]
    rfl

theorem canonComm (a b : String) : canon a b = canon b a := pairComm a b

/- Reading an edge back by position gives the link it was made of. -/
theorem edgeNodes {nodes : List String} {a b : String} {edge : Edge} (found : edgeOf (index nodes) a b = some edge) :
    canon (nodes.getD edge.1 "") (nodes.getD edge.2 "") = canon a b := by
  simp only [edgeOf, bind, Option.bind_eq_some_iff] at found
  obtain ⟨ia,atA,ib,atB,last⟩ := found
  cases Option.some.inj last
  have nodeA := indexNode atA
  have nodeB := indexNode atB
  rcases le_total ia ib with below | above
  · rw [min_eq_left below, max_eq_right below, nodeA, nodeB]
  · rw [min_eq_right above, max_eq_left above, nodeA, nodeB, canonComm]

theorem noteCostFound {known : BTreeMap String Nat} {cost : BTreeMap Edge UInt64} {l : WeightedLink} {edge : Edge}
    {c : UInt64} (found : (noteCost known cost l)[edge]? = some c) :
    (∃ c', cost[edge]? = some c') ∨ edgeOf known l.a l.b = some edge := by
  rw [noteCost] at found
  split at found
  · exact .inl ⟨c,found⟩
  · split at found
    · exact .inl ⟨c,found⟩
    · rename_i here
      have inserted {v : UInt64} {e : Edge} (same : edgeOf known l.a l.b = some e) (put : (cost.insert e v)[edge]? = some c) :
          (∃ c', cost[edge]? = some c') ∨ edgeOf known l.a l.b = some edge := by
        rw [lookupInsert] at put
        split at put
        · rename_i equal
          exact .inr (equal ▸ same)
        · exact .inl ⟨c,put⟩
      split at found <;> exact inserted here found

theorem cheapestFound {known : BTreeMap String Nat} {links : List WeightedLink} {cost : BTreeMap Edge UInt64} {edge : Edge}
    {c : UInt64} (found : (links.foldl (noteCost known) cost)[edge]? = some c) :
    (∃ c', cost[edge]? = some c') ∨ ∃ l ∈ links, edgeOf known l.a l.b = some edge := by
  induction links generalizing cost with
  | nil => exact .inl ⟨c,found⟩
  | cons l rest ih =>
    rcases ih found with ⟨c',old⟩ | ⟨l',mem,same⟩
    · exact (noteCostFound old).imp id (fun same => ⟨l,by simp,same⟩)
    · exact .inr ⟨l',List.mem_cons_of_mem l mem,same⟩

theorem bestFold {s : Shortcuts} {entries : List (Edge × UInt64)} {best : Option (Edge × UInt64)} {edge : Edge}
    {improvement : UInt64} (won : entries.foldl s.consider best = some (edge,improvement)) :
    best = some (edge,improvement) ∨ ∃ c, (edge,c) ∈ entries := by
  induction entries generalizing best with
  | nil => exact .inl won
  | cons entry rest ih =>
    rcases ih won with taken | ⟨c,mem⟩
    · have kept : best = some (edge,improvement) ∨ entry.1 = edge := by
        rw [Shortcuts.consider] at taken
        split at taken
        · exact .inl taken
        · simp only at taken
          split at taken
          · exact .inl taken
          · split at taken
            · exact .inr (Prod.mk.inj (Option.some.inj taken)).1
            · exact .inl taken
      exact kept.imp id (fun same => ⟨entry.2,by simp [← same]⟩)
    · exact .inr ⟨c,List.mem_cons_of_mem entry mem⟩

theorem bestOffered {s : Shortcuts} {nodes : List String} {links : List WeightedLink} {edge : Edge} {improvement : UInt64}
    (won : s.best (cheapest (index nodes) links) = some (edge,improvement)) :
    Offered links (canon (nodes.getD edge.1 "") (nodes.getD edge.2 "")) := by
  rcases bestFold won with none | ⟨c,mem⟩
  · contradiction
  · rw [Std.ExtTreeMap.mem_toList_iff_getElem?_eq_some] at mem
    rcases cheapestFound mem with ⟨c',none⟩ | ⟨l,inside,found⟩
    · simp at none
    · exact ⟨l,inside,(edgeNodes found).symm⟩

theorem roundsOffered {nodes : List String} {links : List WeightedLink} {budget : Nat} {s : Shortcuts}
    (start : ∀ link ∈ s.plan.links, Offered links link) :
    ∀ link ∈ (s.rounds nodes (cheapest (index nodes) links) budget).plan.links, Offered links link := by
  induction budget generalizing s with
  | zero => exact start
  | succ budget ih =>
    rw [Shortcuts.rounds]
    split
    · exact start
    · rename_i edge improvement won
      refine ih ?_
      intro link mem
      rcases List.mem_append.mp mem with old | new
      · exact start link old
      · rw [List.mem_singleton.mp new]
        exact bestOffered won

theorem shortcutsOffered {nodes : List String} {links : List WeightedLink} {base : OverlayPlan} {budget : Nat}
    (start : ∀ link ∈ base.links, Offered links link) :
    ∀ link ∈ (addShortcuts nodes links base budget).links, Offered links link := by
  rw [addShortcuts]
  split
  · exact start
  · exact roundsOffered start

theorem plannedDesired {n : Network} {latency : String → String → Option UInt64} {budget : Nat} {link : String × String}
    (planned : link ∈ (planNetworkOverlay n latency budget).links) : link ∈ n.desiredChannels := by
  obtain ⟨l,mem,same⟩ := shortcutsOffered (fun _ base => minLatencyOffered base) link planned
  obtain ⟨p,desired,measured⟩ := List.mem_filterMap.mp mem
  obtain ⟨c,_,made⟩ := Option.map_eq_some_iff.mp measured
  subst made
  rw [Std.ExtTreeSet.mem_toList] at desired
  obtain ⟨a,_,b,_,ends,_⟩ := Network.desiredAllowed desired
  have sorted : canon p.1 p.2 = p := by
    rw [← ends]
    exact pairSorted a.id b.id
  rw [← same, sorted]
  exact desired

theorem plannedAllowed {n : Network} {latency : String → String → Option UInt64} {budget : Nat} {link : String × String}
    (planned : link ∈ (planNetworkOverlay n latency budget).links) :
    ∃ a ∈ n.agents, ∃ b ∈ n.agents, link = (a.id,b.id) ∧ n.policy.allows a b = true ∧ n.policy.allows b a = true := by
  obtain ⟨a,memA,b,memB,ends,_,there,back⟩ := Network.desiredAllowed (plannedDesired planned)
  rw [Pair.new] at ends
  split at ends
  · exact ⟨a,memA,b,memB,ends.symm,there,back⟩
  · exact ⟨b,memB,a,memA,ends.symm,back,there⟩

/- Two members whose ids are the ends of a planned link. -/
def Linked (n : Network) (plan : OverlayPlan) (a b : Agent) : Prop :=
  a ∈ n.agents ∧ b ∈ n.agents ∧ ((a.id,b.id) ∈ plan.links ∨ (b.id,a.id) ∈ plan.links)

theorem linkedAllowed {debug : String → String} {n : Network} (ok : n.validate debug = .ok ())
    {latency : String → String → Option UInt64} {budget : Nat} {a b : Agent}
    (linked : Linked n (planNetworkOverlay n latency budget) a b) :
    n.policy.allows a b = true ∧ n.policy.allows b a = true := by
  obtain ⟨memA,memB,forward | backward⟩ := linked
  · obtain ⟨c,memC,d,memD,ends,there,back⟩ := plannedAllowed forward
    obtain ⟨left,right⟩ := Prod.mk.inj ends
    rw [Network.validatedUnique ok memA memC left, Network.validatedUnique ok memB memD right]
    exact ⟨there,back⟩
  · obtain ⟨c,memC,d,memD,ends,there,back⟩ := plannedAllowed backward
    obtain ⟨left,right⟩ := Prod.mk.inj ends
    rw [Network.validatedUnique ok memA memD right, Network.validatedUnique ok memB memC left]
    exact ⟨back,there⟩

theorem linkedRises {debug : String → String} {n : Network} (ok : n.validate debug = .ok ())
    (mac : n.policy.macFlowControl = true) {latency : String → String → Option UInt64} {budget : Nat} {a b : Agent}
    (path : Relation.TransGen (Linked n (planNetworkOverlay n latency budget)) a b) :
    Policy.Rises n.policy.levels a b ∧ Policy.Rises n.policy.levels b a := by
  have step {x y : Agent} (linked : Linked n (planNetworkOverlay n latency budget) x y) :
      Policy.Rises n.policy.levels x y ∧ Policy.Rises n.policy.levels y x := by
    obtain ⟨there,back⟩ := linkedAllowed ok linked
    exact ⟨Policy.allowsRises mac there,Policy.allowsRises mac back⟩
  induction path with
  | single linked => exact step linked
  | tail _ linked ih =>
    have next := step linked
    exact ⟨Policy.risesTrans ih.1 next.1,Policy.risesTrans next.2 ih.2⟩

/- Planned links are allowed both ways; under the mandatory rule no chain of allowed flows goes
down, so a path of planned links stays on one level. -/
theorem plannedOnOneLevel (n : Network) (latency : String → String → Option UInt64) (budget : Nat) :
    (∀ link ∈ (planNetworkOverlay n latency budget).links, ∃ a ∈ n.agents, ∃ b ∈ n.agents,
      link = (a.id,b.id) ∧ n.policy.allows a b = true ∧ n.policy.allows b a = true) ∧
    (n.policy.macFlowControl = true →
      (∀ flow : List Agent, flow.IsChain (fun a b => n.policy.allows a b = true) →
        flow.Pairwise (Policy.Rises n.policy.levels)) ∧
      ∀ debug, n.validate debug = .ok () → ∀ a b,
        Relation.TransGen (Linked n (planNetworkOverlay n latency budget)) a b →
          Policy.SameLevel n.policy.levels a b) := by
  refine ⟨fun _ planned => plannedAllowed planned,?_⟩
  intro mac
  refine ⟨fun _ chain => Policy.chainRises mac chain,?_⟩
  intro debug ok a b path
  obtain ⟨there,back⟩ := linkedRises ok mac path
  exact Policy.bothWaysLevel there back

/- Three public agents and a secret one, every pair measured and allowed by the one rule; the last
link is a shortcut. -/
theorem publicAgentsLinked :
    let agent (id label : String) : Agent := ⟨id,"dev",label⟩
    let n : Network := {
      agents := [agent "x" "public",agent "s" "secret",agent "u" "public",agent "y" "public"]
      policy := ⟨⟨["public","secret"]⟩,[⟨{},{}⟩],true⟩ }
    let latency : String → String → Option UInt64 := fun _ _ => some 1
    (planNetworkOverlay n latency 3).links = [("u","x"),("u","y"),("x","y")] ∧
      Policy.SameLevel n.policy.levels (agent "x" "public") (agent "y" "public") := by
  intro agent n latency
  have links : (planNetworkOverlay n latency 3).links = [("u","x"),("u","y"),("x","y")] := by decide +kernel
  have first : Linked n (planNetworkOverlay n latency 3) (agent "x" "public") (agent "u" "public") :=
    ⟨by simp [n],by simp [n],by simp [links, agent]⟩
  have second : Linked n (planNetworkOverlay n latency 3) (agent "u" "public") (agent "y" "public") :=
    ⟨by simp [n],by simp [n],by simp [links, agent]⟩
  have ok : n.validate (fun id => id) = .ok () := by decide +kernel
  exact ⟨links,((plannedOnOneLevel n latency 3).2 rfl).2 _ ok _ _ (.tail (.single first) second)⟩

end CadsTunnel.Overlay
