import Mathlib

/-! Spanning forests over links that carry a weight. What a list of links connects is
a setoid on the vertices. Taking the links in the order of their weights, and each one
only if it joins two parts that were apart, connects all that the links connect, closes no
cycle, and weighs no more than any other choice that connects as much. -/
namespace CadsTunnel.SpanningForest

section Parts
variable {V : Type}

/- The parts after a link between two vertices. -/
def join (s : Setoid V) (link : V × V) : Setoid V where
  r x y := s x y ∨ s x link.1 ∧ s link.2 y ∨ s x link.2 ∧ s link.1 y
  iseqv := by
    have turn {x y : V} (same : s x y) : s y x := s.symm same
    have next {x y z : V} (first : s x y) (second : s y z) : s x z := s.trans first second
    refine ⟨fun x => .inl (s.refl x),?_,?_⟩
    · rintro x y (same | ⟨left,right⟩ | ⟨left,right⟩)
      · exact .inl (turn same)
      · exact .inr (.inr ⟨turn right,turn left⟩)
      · exact .inr (.inl ⟨turn right,turn left⟩)
    · rintro x y z (same | ⟨left,right⟩ | ⟨left,right⟩) (same' | ⟨left',right'⟩ | ⟨left',right'⟩)
      · exact .inl (next same same')
      · exact .inr (.inl ⟨next same left',right'⟩)
      · exact .inr (.inr ⟨next same left',right'⟩)
      · exact .inr (.inl ⟨left,next right same'⟩)
      · exact .inr (.inl ⟨left,right'⟩)
      · exact .inl (next left right')
      · exact .inr (.inr ⟨left,next right same'⟩)
      · exact .inl (next left right')
      · exact .inr (.inr ⟨left,right'⟩)

theorem joinEnds (s : Setoid V) (link : V × V) : join s link link.1 link.2 :=
  .inr (.inl ⟨s.refl _,s.refl _⟩)

theorem joinKeeps (s : Setoid V) (link : V × V) : s ≤ join s link := fun _ _ same => .inl same

/- No coarser than needed. -/
theorem joinLe {s t : Setoid V} {link : V × V} : join s link ≤ t ↔ s ≤ t ∧ t link.1 link.2 := by
  constructor
  · intro below
    exact ⟨fun _ _ same => below (joinKeeps s link same),below (joinEnds s link)⟩
  · rintro ⟨below,ends⟩ x y (same | ⟨left,right⟩ | ⟨left,right⟩)
    · exact below same
    · exact t.trans (below left) (t.trans ends (below right))
    · exact t.trans (below left) (t.trans (t.symm ends) (below right))

theorem joinJoined {s : Setoid V} {link : V × V} (joined : s link.1 link.2) : join s link = s :=
  le_antisymm (joinLe.mpr ⟨le_refl s,joined⟩) (joinKeeps s link)

theorem joinComm (s : Setoid V) (first second : V × V) : join (join s first) second = join (join s second) first := by
  have half (a b : V × V) : join (join s a) b ≤ join (join s b) a :=
    joinLe.mpr ⟨joinLe.mpr ⟨(joinKeeps s b).trans (joinKeeps _ a),joinEnds _ a⟩,joinKeeps _ a (joinEnds s b)⟩
  exact le_antisymm (half first second) (half second first)

theorem joinSwap (s : Setoid V) (a b : V) : join s (a,b) = join s (b,a) := by
  have half (a b : V) : join s (a,b) ≤ join s (b,a) :=
    joinLe.mpr ⟨joinKeeps s (b,a),(join s (b,a)).symm (joinEnds s (b,a))⟩
  exact le_antisymm (half a b) (half b a)

/- If only the first link connects the ends of the second, then the second connects those of the first. -/
theorem joinExchange {s : Setoid V} {first second : V × V} (apart : ¬ s second.1 second.2)
    (joined : join s first second.1 second.2) : join s first = join s second := by
  have back : join s second first.1 first.2 := by
    rcases joined with same | ⟨left,right⟩ | ⟨left,right⟩
    · exact absurd same apart
    · exact .inr (.inl ⟨s.symm left,s.symm right⟩)
    · exact .inr (.inr ⟨right,left⟩)
  exact le_antisymm (joinLe.mpr ⟨joinKeeps s second,back⟩) (joinLe.mpr ⟨joinKeeps s first,joined⟩)

/- A link between two parts makes one of them. -/
theorem joinCard [Finite V] {s : Setoid V} {link : V × V} (apart : ¬ s link.1 link.2) :
    Nat.card (Quotient s) = Nat.card (Quotient (join s link)) + 1 := by
  classical
  let merge (q : {q : Quotient s // q ≠ ⟦link.2⟧}) : Quotient (join s link) :=
    q.1.map id (joinKeeps s link)
  have injective : merge.Injective := by
    rintro ⟨⟨x⟩,notX⟩ ⟨⟨y⟩,notY⟩ same
    have awayX : ¬ s x link.2 := fun near => notX (Quotient.sound near)
    have awayY : ¬ s y link.2 := fun near => notY (Quotient.sound near)
    refine Subtype.ext (Quotient.sound ?_)
    rcases (Quotient.exact same : join s link x y) with near | ⟨_,right⟩ | ⟨left,_⟩
    · exact near
    · exact absurd (s.symm right) awayY
    · exact absurd left awayX
  have surjective : merge.Surjective := by
    rintro ⟨y⟩
    by_cases near : s y link.2
    · refine ⟨⟨⟦link.1⟧,fun same => apart (Quotient.exact same)⟩,Quotient.sound ?_⟩
      exact .inr (.inl ⟨s.refl _,s.symm near⟩)
    · exact ⟨⟨⟦y⟧,fun same => near (Quotient.exact same)⟩,rfl⟩
  rw [← Nat.card_congr (Equiv.ofBijective merge ⟨injective,surjective⟩),← Finite.card_option]
  exact Nat.card_congr (Equiv.optionSubtypeNe _).symm

/- How many parts the given vertices are in. -/
noncomputable def parts (among : Set V) (s : Setoid V) : Nat := Nat.card (Quotient (s.comap (Subtype.val : among → V)))

theorem joinParts {among : Set V} [Finite among] {s : Setoid V} {link : V × V} (apart : ¬ s link.1 link.2)
    (left : link.1 ∈ among) (right : link.2 ∈ among) : parts among s = parts among (join s link) + 1 :=
  have inner : ¬ s.comap (Subtype.val : among → V) ⟨link.1,left⟩ ⟨link.2,right⟩ := apart
  @joinCard among _ _ (⟨link.1,left⟩,⟨link.2,right⟩) inner

theorem partsBot (among : Set V) : parts among ⊥ = Nat.card among := by
  have same : (⊥ : Setoid V).comap (Subtype.val : among → V) = ⊥ := Setoid.ext fun _ _ => Subtype.ext_iff.symm
  rw [parts, same]
  exact Nat.card_congr Setoid.quotientBotEquiv

theorem partsSome {among : Set V} [Finite among] {x : V} (mem : x ∈ among) (s : Setoid V) : 0 < parts among s := by
  have inhabited : Nonempty (Quotient (s.comap (Subtype.val : among → V))) := ⟨⟦⟨x,mem⟩⟧⟩
  exact Nat.card_pos

theorem partsOne {among : Set V} [Finite among] {s : Setoid V} (one : parts among s ≤ 1) {x y : V} (inX : x ∈ among)
    (inY : y ∈ among) : s x y := by
  have single : Subsingleton (Quotient (s.comap (Subtype.val : among → V))) := Finite.card_le_one_iff_subsingleton.mp one
  have joined : s.comap (Subtype.val : among → V) ⟨x,inX⟩ ⟨y,inY⟩ := Quotient.exact (single.elim _ _)
  exact joined

theorem partsJoined {among : Set V} {s : Setoid V} (joined : ∀ x ∈ among, ∀ y ∈ among, s x y) : parts among s ≤ 1 := by
  have single : Subsingleton (Quotient (s.comap (Subtype.val : among → V))) := by
    refine ⟨?_⟩
    rintro ⟨x,inX⟩ ⟨y,inY⟩
    exact Quotient.sound (joined x inX y inY)
  exact Finite.card_le_one_iff_subsingleton.mpr single

end Parts

section Links
variable {V E : Type} {ends : E → V × V}

def joinAll (ends : E → V × V) (s : Setoid V) (links : List E) : Setoid V := links.foldl (fun s e => join s (ends e)) s

/- Every link joins two parts that the links before it left apart. -/
inductive Forest (ends : E → V × V) : Setoid V → List E → Prop
  | nil {s : Setoid V} : Forest ends s []
  | cons {s : Setoid V} {e : E} {rest : List E} : ¬ s (ends e).1 (ends e).2 → Forest ends (join s (ends e)) rest →
      Forest ends s (e :: rest)

variable {s : Setoid V}

theorem joinAllLe {t : Setoid V} {links : List E} :
    joinAll ends s links ≤ t ↔ s ≤ t ∧ ∀ e ∈ links, t (ends e).1 (ends e).2 := by
  induction links generalizing s with
  | nil => simp [joinAll]
  | cons e rest ih =>
    have step : joinAll ends s (e :: rest) = joinAll ends (join s (ends e)) rest := rfl
    rw [step, ih, joinLe, List.forall_mem_cons, and_assoc]

theorem joinAllKeeps (ends : E → V × V) (s : Setoid V) (links : List E) : s ≤ joinAll ends s links :=
  (joinAllLe.mp le_rfl).1

theorem joinAllEnds {links : List E} {e : E} (mem : e ∈ links) : joinAll ends s links (ends e).1 (ends e).2 :=
  (joinAllLe.mp le_rfl).2 e mem

/- The order of the links and how often they come do not count. -/
theorem joinAllMono {links others : List E} (inside : ∀ e ∈ links, e ∈ others) :
    joinAll ends s links ≤ joinAll ends s others :=
  joinAllLe.mpr ⟨joinAllKeeps ends s others,fun e mem => joinAllEnds (inside e mem)⟩

/- A link whose ends were joined before can be left out. -/
theorem joinAllDrop {e : E} [DecidablePred (· ≠ e)] (joined : s (ends e).1 (ends e).2) (links : List E) :
    joinAll ends s (links.filter (· ≠ e)) = joinAll ends s links := by
  refine le_antisymm (joinAllMono fun f mem => List.mem_of_mem_filter mem) (joinAllLe.mpr ⟨joinAllKeeps ends s _,?_⟩)
  intro f mem
  by_cases same : f = e
  · exact joinAllKeeps ends s _ (same ▸ joined)
  · exact joinAllEnds (List.mem_filter.mpr ⟨mem,by simpa using same⟩)

/- Among links that connect the ends of another one there is one that it can stand in for. -/
theorem joinAllExchange {links : List E} {e : E} (apart : ¬ s (ends e).1 (ends e).2)
    (joined : joinAll ends s links (ends e).1 (ends e).2) :
    ∃ before f after, links = before ++ f :: after ∧
      joinAll ends (join s (ends e)) (before ++ after) = joinAll ends s links := by
  induction links generalizing s with
  | nil => exact absurd joined apart
  | cons f rest ih =>
    by_cases here : join s (ends f) (ends e).1 (ends e).2
    · refine ⟨[],f,rest,rfl,?_⟩
      rw [← joinExchange apart here]
      rfl
    · obtain ⟨before,g,after,split,same⟩ := ih here joined
      refine ⟨f :: before,g,after,by rw [split]; rfl,?_⟩
      calc joinAll ends (join s (ends e)) (f :: before ++ after)
          = joinAll ends (join (join s (ends f)) (ends e)) (before ++ after) := by rw [joinComm]; rfl
        _ = joinAll ends s (f :: rest) := same

theorem forestCount {among : Set V} [Finite among] {links : List E} (forest : Forest ends s links)
    (inside : ∀ e ∈ links, (ends e).1 ∈ among ∧ (ends e).2 ∈ among) :
    parts among s = parts among (joinAll ends s links) + links.length := by
  induction forest with
  | nil => rfl
  | @cons s e rest apart _ ih =>
    have ⟨left,right⟩ := inside e List.mem_cons_self
    rw [joinParts apart left right, ih fun f mem => inside f (List.mem_cons_of_mem e mem), List.length_cons]
    rfl

open Classical in
noncomputable def greedy (ends : E → V × V) (s : Setoid V) : List E → List E
  | [] => []
  | e :: rest =>
    if s (ends e).1 (ends e).2 then greedy ends s rest else e :: greedy ends (join s (ends e)) rest

theorem greedyJoined {e : E} (joined : s (ends e).1 (ends e).2) (rest : List E) :
    greedy ends s (e :: rest) = greedy ends s rest := by
  rw [greedy, if_pos joined]

theorem greedyApart {e : E} (apart : ¬ s (ends e).1 (ends e).2) (rest : List E) :
    greedy ends s (e :: rest) = e :: greedy ends (join s (ends e)) rest := by
  rw [greedy, if_neg apart]

theorem greedySublist (links : List E) : (greedy ends s links).Sublist links := by
  induction links generalizing s with
  | nil => exact .slnil
  | cons e rest ih =>
    by_cases joined : s (ends e).1 (ends e).2
    · rw [greedyJoined joined]
      exact .cons e ih
    · rw [greedyApart joined]
      exact .cons_cons e ih

theorem greedySpans (links : List E) : joinAll ends s (greedy ends s links) = joinAll ends s links := by
  induction links generalizing s with
  | nil => rfl
  | cons e rest ih =>
    by_cases joined : s (ends e).1 (ends e).2
    · rw [greedyJoined joined, ih]
      exact congrArg (joinAll ends · rest) (joinJoined joined).symm
    · rw [greedyApart joined]
      exact ih

theorem greedyForest (links : List E) : Forest ends s (greedy ends s links) := by
  induction links generalizing s with
  | nil => exact .nil
  | cons e rest ih =>
    by_cases joined : s (ends e).1 (ends e).2
    · rw [greedyJoined joined]
      exact ih
    · rw [greedyApart joined]
      exact .cons joined ih

/- Once all ends are joined nothing more is taken. -/
theorem greedyDone {links : List E} (joined : ∀ e ∈ links, s (ends e).1 (ends e).2) : greedy ends s links = [] := by
  induction links with
  | nil => rfl
  | cons e rest ih =>
    rw [greedyJoined (joined e List.mem_cons_self)]
    exact ih fun f mem => joined f (List.mem_cons_of_mem e mem)

/- The choice depends on the ends alone. -/
theorem greedyMap {F : Type} {ends' : F → V × V} {f : E → F} (kept : ∀ e, ends' (f e) = ends e) (links : List E) :
    (greedy ends s links).map f = greedy ends' s (links.map f) := by
  induction links generalizing s with
  | nil => rfl
  | cons e rest ih =>
    by_cases joined : s (ends e).1 (ends e).2
    · rw [greedyJoined joined, List.map_cons, greedyJoined ((kept e).symm ▸ joined), ih]
    · rw [greedyApart joined, List.map_cons, List.map_cons, greedyApart ((kept e).symm ▸ joined), ih, kept]

section Weights
variable {M : Type} [AddCommMonoid M] [PartialOrder M] [IsOrderedAddMonoid M] [CanonicallyOrderedAdd M] {weight : E → M}

theorem greedyMinimal {links others : List E} (sorted : links.Pairwise fun e f => weight e ≤ weight f)
    (inside : ∀ e ∈ others, e ∈ links) (spans : joinAll ends s others = joinAll ends s links) :
    ((greedy ends s links).map weight).sum ≤ (others.map weight).sum := by
  classical
  induction links generalizing s others with
  | nil => exact zero_le
  | cons e rest ih =>
    obtain ⟨least,sorted⟩ := List.pairwise_cons.mp sorted
    have dropped {t : Setoid V} (joined : t (ends e).1 (ends e).2) {kept : List E} (insideKept : ∀ f ∈ kept, f ∈ e :: rest)
        (spans : joinAll ends t kept = joinAll ends t rest) :
        ((greedy ends t rest).map weight).sum ≤ (kept.map weight).sum := by
      calc ((greedy ends t rest).map weight).sum
          ≤ ((kept.filter (· ≠ e)).map weight).sum := by
            refine ih sorted ?_ ((joinAllDrop joined kept).trans spans)
            intro f mem
            obtain ⟨inKept,other⟩ := List.mem_filter.mp mem
            exact (List.mem_cons.mp (insideKept f inKept)).resolve_left (by simpa using other)
        _ ≤ (kept.map weight).sum :=
            (List.filter_sublist.map weight).sum_le_sum fun _ _ => zero_le
    by_cases joined : s (ends e).1 (ends e).2
    · rw [greedyJoined joined]
      exact dropped joined inside (spans.trans (congrArg (joinAll ends · rest) (joinJoined joined)))
    · have reached : joinAll ends s others (ends e).1 (ends e).2 := by
        rw [spans]
        exact joinAllEnds List.mem_cons_self
      obtain ⟨before,f,after,rfl,same⟩ := joinAllExchange joined reached
      have heavier : weight e ≤ weight f := by
        rcases List.mem_cons.mp (inside f (by simp)) with rfl | mem
        · exact le_rfl
        · exact least f mem
      have rest : ((greedy ends (join s (ends e)) rest).map weight).sum ≤ ((before ++ after).map weight).sum := by
        refine dropped (joinEnds s (ends e)) ?_ (same.trans spans)
        intro g mem
        refine inside g ?_
        rcases List.mem_append.mp mem with left | right
        · exact List.mem_append_left _ left
        · exact List.mem_append_right _ (List.mem_cons_of_mem f right)
      rw [greedyApart joined, List.map_cons, List.sum_cons]
      calc weight e + ((greedy ends (join s (ends e)) _).map weight).sum
          ≤ weight f + ((before ++ after).map weight).sum := add_le_add heavier rest
        _ = ((before ++ f :: after).map weight).sum := by
            simp only [List.map_append, List.map_cons, List.sum_append, List.sum_cons]
            exact add_left_comm _ _ _

end Weights

/- Two different vertices are next to each other if a link runs between them. -/
def graph (ends : E → V × V) (links : List E) : SimpleGraph V := .fromRel fun x y => ∃ e ∈ links, ends e = (x,y)

theorem graphReachable {links : List E} {x y : V} : (graph ends links).Reachable x y ↔ joinAll ends ⊥ links x y := by
  constructor
  · rintro ⟨walk⟩
    induction walk with
    | nil => exact (joinAll ends ⊥ links).refl _
    | cons next _ ih =>
      refine (joinAll ends ⊥ links).trans ?_ ih
      have joined {x y : V} (near : ∃ e ∈ links, ends e = (x,y)) : joinAll ends ⊥ links x y := by
        obtain ⟨e,mem,same⟩ := near
        have atEnds : joinAll ends ⊥ links (ends e).1 (ends e).2 := joinAllEnds mem
        rwa [same] at atEnds
      obtain ⟨_,near | near⟩ := (SimpleGraph.fromRel_adj _ _ _).mp next
      · exact joined near
      · exact (joinAll ends ⊥ links).symm (joined near)
  · have below : joinAll ends ⊥ links ≤ (graph ends links).reachableSetoid := by
      refine joinAllLe.mpr ⟨bot_le,?_⟩
      intro e mem
      by_cases same : (ends e).1 = (ends e).2
      · rw [same]
      · exact SimpleGraph.Adj.reachable ((SimpleGraph.fromRel_adj _ _ _).mpr ⟨same,.inl ⟨e,mem,rfl⟩⟩)
    exact fun joined => below joined

theorem graphSnoc (links : List E) (e : E) :
    graph ends (links ++ [e]) = graph ends links ⊔ SimpleGraph.edge (ends e).1 (ends e).2 := by
  ext x y
  simp only [graph, SimpleGraph.sup_adj, SimpleGraph.fromRel_adj, SimpleGraph.edge_adj, List.mem_append, List.mem_singleton,
    Prod.ext_iff]
  grind

theorem forestGrows {links rest : List E} (forest : Forest ends s rest) (reached : s = joinAll ends ⊥ links)
    (acyclic : (graph ends links).IsAcyclic) : (graph ends (links ++ rest)).IsAcyclic := by
  induction forest generalizing links with
  | nil => rwa [List.append_nil]
  | @cons s e rest apart _ ih =>
    have fresh : ¬ (graph ends links).Reachable (ends e).1 (ends e).2 := by
      rw [graphReachable, ← reached]
      exact apart
    have grown : (graph ends (links ++ [e])).IsAcyclic := by
      rw [graphSnoc]
      exact acyclic.sup_edge_of_not_reachable fresh
    have joined : join s (ends e) = joinAll ends ⊥ (links ++ [e]) := by
      rw [reached, joinAll, joinAll, List.foldl_append]
      rfl
    rw [List.append_cons]
    exact ih joined grown

theorem forestAcyclic {links : List E} (forest : Forest ends ⊥ links) : (graph ends links).IsAcyclic := by
  have empty : graph ends [] = ⊥ := by
    ext x y
    simp [graph]
  have start : (graph ends []).IsAcyclic := by
    rw [empty]
    exact SimpleGraph.isAcyclic_bot
  exact forestGrows forest rfl start

theorem forestApart {links : List E} (forest : Forest ends s links) {e : E} (mem : e ∈ links) :
    ¬ s (ends e).1 (ends e).2 := by
  induction forest with
  | nil => contradiction
  | @cons s f rest apart _ ih =>
    rcases List.mem_cons.mp mem with rfl | later
    · exact apart
    · exact fun joined => ih later (joinKeeps s (ends f) joined)

/- No two links of a forest have the same ends. -/
theorem forestNodup {links : List E} (forest : Forest ends s links) : (links.map ends).Nodup := by
  induction forest with
  | nil => exact .nil
  | @cons s e rest _ tail ih =>
    refine List.nodup_cons.mpr ⟨?_,ih⟩
    intro mem
    obtain ⟨f,later,same⟩ := List.mem_map.mp mem
    exact forestApart tail later (same ▸ joinEnds s (ends e))

end Links
end CadsTunnel.SpanningForest
