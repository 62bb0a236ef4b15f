import CadsTunnel.OverlayPlan
import CadsTunnel.ShortestPaths

/-! The distances of the shortcut planner are read as a table of numbers. The sweeps
write in place, but what they still read is what they would have read before, so one pivot
adds the ways through a position and one relaxation the ways over a link. -/
namespace CadsTunnel.Overlay.Distances
open Words OrderedMap ShortestPaths

variable {n : Nat} {d : Distances} {M : Fin n → Fin n → Nat}

/- The latency that stands for no path. -/
def top : Nat := inf.toNat

theorem topSmall : 4 * top < 2 ^ 64 := by decide

structure Reads (n : Nat) (d : Distances) (M : Fin n → Fin n → Nat) : Prop where
  rows : d.length = n
  columns : ∀ x : Fin n, (d.getD x []).length = n
  cell : ∀ x y : Fin n, (d.latency x y).toNat = M x y

theorem readsUnique {d' : Distances} (left : Reads n d M) (right : Reads n d' M) : d = d' := by
  have rowOf {d : Distances} (reads : Reads n d M) (x : Fin n) : d[x.1]? = some (d.getD x []) := by
    rw [List.getD_eq_getElem?_getD, List.getElem?_eq_getElem (reads.rows.symm ▸ x.2)]
    rfl
  have cellOf {d : Distances} (reads : Reads n d M) (x y : Fin n) : (d.getD x [])[y.1]? = some (d.latency x y) := by
    rw [latency, List.getD_eq_getElem?_getD (l := d.getD x []), List.getElem?_eq_getElem ((reads.columns x).symm ▸ y.2)]
    rfl
  refine List.ext_getElem? fun x => ?_
  by_cases inside : x < n
  · rw [rowOf left ⟨x,inside⟩, rowOf right ⟨x,inside⟩]
    refine congrArg some (List.ext_getElem? fun y => ?_)
    by_cases within : y < n
    · rw [cellOf left ⟨x,inside⟩ ⟨y,within⟩, cellOf right ⟨x,inside⟩ ⟨y,within⟩]
      exact congrArg some (UInt64.toNat.inj ((left.cell _ _).trans (right.cell _ _).symm))
    · rw [List.getElem?_eq_none (by rw [left.columns ⟨x,inside⟩]; omega),
        List.getElem?_eq_none (by rw [right.columns ⟨x,inside⟩]; omega)]
  · rw [List.getElem?_eq_none (by rw [left.rows]; omega), List.getElem?_eq_none (by rw [right.rows]; omega)]

theorem rowPut (d : Distances) (i j x : Nat) (v : UInt64) :
    (d.put i j v).getD x [] = if x = i then (d.getD x []).set j v else d.getD x [] := by
  simp only [put, List.getD_eq_getElem?_getD, List.getElem?_modify]
  by_cases same : x = i
  · rw [if_pos same, same]
    cases d[i]? <;> simp
  · rw [if_neg same]
    simp [Ne.symm same]

theorem readsPut (reads : Reads n d M) (i j : Fin n) (v : UInt64) :
    Reads n (d.put i j v) (fun x y => if x = i ∧ y = j then v.toNat else M x y) where
  rows := (List.length_modify ..).trans reads.rows
  columns x := by
    rw [rowPut]
    split
    · rw [List.length_set, reads.columns x]
    · exact reads.columns x
  cell x y := by
    rw [latency, rowPut]
    by_cases row : x = i
    · have width := reads.columns x
      rw [if_pos (congrArg Fin.val row), DisjointSet.readSet (width.symm ▸ j.2)]
      by_cases column : y = j
      · rw [if_pos (congrArg Fin.val column), if_pos ⟨row,column⟩]
      · rw [if_neg fun same => column (Fin.ext same), if_neg fun both => column both.2]
        exact reads.cell x y
    · have other : (x : Nat) ≠ i := fun same => row (Fin.ext same)
      rw [if_neg other, if_neg fun both => row both.1]
      exact reads.cell x y

theorem readsLower (reads : Reads n d M) (i j : Fin n) (v : UInt64) :
    Reads n (d.lower i j v) (fun x y => if x = i ∧ y = j then min (M x y) v.toNat else M x y) := by
  have here := reads.cell i j
  rw [lower]
  split
  · rename_i less
    have below := UInt64.lt_iff_toNat_lt.mp less
    convert readsPut reads i j v using 3 with x y
    split
    · rename_i both
      rw [both.1, both.2]
      omega
    · rfl
  · rename_i less
    have above : M i j ≤ v.toNat := by
      rw [← here]
      exact not_lt.mp fun below => less (UInt64.lt_iff_toNat_lt.mpr below)
    convert reads using 3 with x y
    split
    · rename_i both
      rw [both.1, both.2]
      omega
    · rfl

open Classical in
/- The new table at the cells that are done, the old one elsewhere. -/
noncomputable def mix (done : Fin n → Fin n → Prop) (M N : Fin n → Fin n → Nat) (x y : Fin n) : Nat :=
  if done x y then N x y else M x y

variable {N : Fin n → Fin n → Nat} {done : Fin n → Fin n → Prop}

theorem mixNew {x y : Fin n} (here : done x y) : mix done M N x y = N x y := if_pos here

theorem mixOld {x y : Fin n} (other : ¬ done x y) : mix done M N x y = M x y := if_neg other

theorem mixNone (M N : Fin n → Fin n → Nat) : mix (fun _ _ => False) M N = M := by
  funext x y
  exact if_neg id

theorem mixAll (all : ∀ x y, done x y) : mix done M N = N := by
  funext x y
  exact if_pos (all x y)

/- Where the tables agree it does not count what is done. -/
theorem mixAgree {done' : Fin n → Fin n → Prop} (agree : ∀ x y, M x y = N x y ∨ (done x y ↔ done' x y)) :
    mix done M N = mix done' M N := by
  funext x y
  simp only [mix]
  rcases agree x y with same | same
  · rw [same, ite_self, ite_self]
  · rw [same]

theorem mixSame {x y : Fin n} (same : N x y = M x y) (done : Fin n → Fin n → Prop) : mix done M N x y = M x y := by
  simp [mix, same]

/- Writing a cell of the new table, from whichever of the two is there. -/
theorem mixFinish {i j : Fin n} {c : Nat → Nat} (old : c (M i j) = N i j) (new : c (N i j) = N i j) :
    (fun x y => if x = i ∧ y = j then c (mix done M N x y) else mix done M N x y) =
      mix (fun x y => done x y ∨ x = i ∧ y = j) M N := by
  funext x y
  by_cases here : x = i ∧ y = j
  · have finished : mix (fun x y => done x y ∨ x = i ∧ y = j) M N x y = N x y := mixNew (.inr here)
    rw [if_pos here, finished, here.1, here.2, mix]
    split
    · exact new
    · exact old
  · rw [if_neg here]
    by_cases before : done x y
    · rw [mixNew before, mixNew (.inl before)]
    · rw [mixOld before, mixOld fun either => either.elim before here]

/- A sweep whose steps finish some cells each. -/
theorem sweepReads {f : Distances → Nat → Distances} {cells : Fin n → Fin n → Fin n → Prop}
    (step : ∀ {d : Distances} {done : Fin n → Fin n → Prop} (j : Fin n), Reads n d (mix done M N) →
      Reads n (f d j) (mix (fun x y => done x y ∨ cells j x y) M N))
    (reads : Reads n d (mix done M N)) :
    Reads n ((List.range n).foldl f d) (mix (fun x y => done x y ∨ ∃ j, cells j x y) M N) := by
  have over' (js : List (Fin n)) {d : Distances} {done : Fin n → Fin n → Prop} (reads : Reads n d (mix done M N)) :
      Reads n ((js.map Fin.val).foldl f d) (mix (fun x y => done x y ∨ ∃ j ∈ js, cells j x y) M N) := by
    induction js generalizing d done with
    | nil => simpa using reads
    | cons j js ih =>
      simpa only [List.map_cons, List.foldl_cons, List.exists_mem_cons_iff, or_assoc] using ih (step j reads)
  have swept := over' (List.finRange n) reads
  rw [List.map_coe_finRange_eq_range] at swept
  simpa using swept

/- The row and the column of the pivot stay. -/
theorem viaColumn {k : Fin n} (zero : M k k = 0) (x : Fin n) : via M k x k = M x k := by simp [via, zero]

theorem viaRow {k : Fin n} (zero : M k k = 0) (y : Fin n) : via M k k y = M k y := by simp [via, zero]

theorem throughReads {k i : Fin n} (below : ∀ x y, M x y ≤ top) (zero : M k k = 0) (j : Fin n)
    (reads : Reads n d (mix done M (via M k))) :
    Reads n (through k i d j) (mix (fun x y => done x y ∨ x = i ∧ y = j) M (via M k)) := by
  have toPivot : (d.latency i k).toNat = M i k := (reads.cell i k).trans (mixSame (viaColumn zero i) done)
  have fromPivot : (d.latency k j).toNat = M k j := (reads.cell k j).trans (mixSame (viaRow zero j) done)
  have room := topSmall
  have first := below i k
  have second := below k j
  have sum : (saturatingAdd (d.latency i k) (d.latency k j)).toNat = M i k + M k j := by
    rw [saturatingAddExact (by omega), toPivot, fromPivot]
  rw [← mixFinish (c := fun m => min m (M i k + M k j)) rfl (by simp [via]), ← sum]
  exact readsLower reads i j _

theorem pivotRowReads {k : Fin n} (below : ∀ x y, M x y ≤ top) (zero : M k k = 0) (i : Fin n)
    (reads : Reads n d (mix done M (via M k))) :
    Reads n (pivotRow n k d i) (mix (fun x y => done x y ∨ x = i) M (via M k)) := by
  rw [pivotRow]
  split
  · -- Nothing gets shorter through a pivot that cannot be reached.
    rename_i unreached
    have far : M i k = top := by
      rw [← mixSame (viaColumn zero i) done, ← reads.cell i k, unreached]
      rfl
    have same : mix (fun x y => done x y ∨ x = i) M (via M k) = mix done M (via M k) := by
      refine mixAgree fun x y => ?_
      by_cases row : x = i
      · refine .inl ?_
        have most := below i y
        rw [row, via, far]
        omega
      · exact .inr (by simp [row])
    rwa [same]
  · have swept : Reads n ((List.range n).foldl (through k i) d) (mix (fun x y => done x y ∨ ∃ j, x = i ∧ y = j) M (via M k)) :=
      sweepReads (fun j => throughReads below zero j) reads
    simpa only [exists_and_left, exists_eq', and_true] using swept

theorem pivotReads {k : Fin n} (below : ∀ x y, M x y ≤ top) (zero : M k k = 0) (reads : Reads n d M) :
    Reads n (pivot n d k) (via M k) := by
  have start : Reads n d (mix (fun _ _ => False) M (via M k)) := by rwa [mixNone]
  have swept : Reads n (pivot n d k) (mix (fun x _ => False ∨ ∃ i, x = i) M (via M k)) :=
    sweepReads (fun i => pivotRowReads below zero i) start
  rwa [mixAll (by simp)] at swept

/- One pivot after another makes the table exact. -/
theorem pivotsReads {link : Fin n → Fin n → Nat → Prop} (ks : List (Fin n)) {among : Fin n → Prop} (reads : Reads n d M)
    (sound : Sound link top M) (triangle : Triangle among M) :
    ∃ N, Reads n ((ks.map Fin.val).foldl (pivot n) d) N ∧ Sound link top N ∧ Triangle (fun m => among m ∨ m ∈ ks) N := by
  induction ks generalizing d M among with
  | nil => exact ⟨M,reads,sound,by simpa using triangle⟩
  | cons k ks ih =>
    obtain ⟨N,readsN,soundN,triangleN⟩ :=
      ih (pivotReads sound.below (sound.zero k) reads) (viaSound sound k) (viaTriangle sound triangle k)
    exact ⟨N,readsN,soundN,by simpa only [List.mem_cons, or_assoc] using triangleN⟩

theorem lowerTwice {i j : Fin n} {u v : UInt64} (reads : Reads n d (mix done M N))
    (target : N i j = min (M i j) (min u.toNat v.toNat)) :
    Reads n ((d.lower i j u).lower i j v) (mix (fun x y => done x y ∨ x = i ∧ y = j) M N) := by
  have lowered := readsLower (readsLower reads i j u) i j v
  rw [← mixFinish (c := fun m => min (min m u.toNat) v.toNat) (by rw [target]; omega) (by rw [target]; omega)]
  convert lowered using 3 with x y
  split <;> rfl

theorem relaxRowReads {a b : Fin n} {w : UInt64} (below : ∀ x y, M x y ≤ top) (symm : ∀ x y, M x y = M y x)
    (light : w.toNat ≤ top) {rowA rowB : List UInt64} (readA : ∀ y : Fin n, (rowA.getD y inf).toNat = M a y)
    (readB : ∀ y : Fin n, (rowB.getD y inf).toNat = M b y) (i : Fin n) (reads : Reads n d (mix done M (detour M a b w.toNat))) :
    Reads n (relaxRow n rowA rowB w d i) (mix (fun x y => done x y ∨ x = i) M (detour M a b w.toNat)) := by
  have room := topSmall
  have sum {u v : UInt64} (left : u.toNat ≤ top) (right : v.toNat ≤ top) :
      (saturatingAdd (saturatingAdd u w) v).toNat = u.toNat + w.toNat + v.toNat := by
    have first := @saturatingAddExact u w (by omega)
    rw [saturatingAddExact (by omega), first]
  have lightA (y : Fin n) : (rowA.getD y inf).toNat ≤ top := by rw [readA]; exact below a y
  have lightB (y : Fin n) : (rowB.getD y inf).toNat ≤ top := by rw [readB]; exact below b y
  rw [relaxRow]
  split
  · -- Nobody who reaches neither end gets anywhere over the link.
    rename_i unreached
    have farA : M i a = top := by
      rw [symm, ← readA, unreached.1]
      rfl
    have farB : M i b = top := by
      rw [symm, ← readB, unreached.2]
      rfl
    have same : mix (fun x y => done x y ∨ x = i) M (detour M a b w.toNat) = mix done M (detour M a b w.toNat) := by
      refine mixAgree fun x y => ?_
      by_cases row : x = i
      · refine .inl ?_
        have most := below i y
        rw [row, detour, farA, farB]
        omega
      · exact .inr (by simp [row])
    rwa [same]
  · have cell {d : Distances} {done : Fin n → Fin n → Prop} (j : Fin n) (reads : Reads n d (mix done M (detour M a b w.toNat))) :=
      lowerTwice (i := i) (j := j) (u := saturatingAdd (saturatingAdd (rowA.getD i inf) w) (rowB.getD j inf))
        (v := saturatingAdd (saturatingAdd (rowB.getD i inf) w) (rowA.getD j inf)) reads
        (by rw [sum (lightA i) (lightB j), sum (lightB i) (lightA j), readA, readA, readB, readB, detour, symm i a, symm i b])
    have swept := sweepReads (f := fun d j =>
      (d.lower i j (saturatingAdd (saturatingAdd (rowA.getD i inf) w) (rowB.getD j inf))).lower i j
        (saturatingAdd (saturatingAdd (rowB.getD i inf) w) (rowA.getD j inf))) cell reads
    simpa only [exists_and_left, exists_eq', and_true] using swept

/- A relaxation reads rows that it took before it wrote. -/
theorem relaxReads {a b : Fin n} {w : UInt64} (below : ∀ x y, M x y ≤ top) (symm : ∀ x y, M x y = M y x) (light : w.toNat ≤ top)
    (reads : Reads n d M) : Reads n (d.relax n (a,b) w) (detour M a b w.toNat) := by
  have start : Reads n d (mix (fun _ _ => False) M (detour M a b w.toNat)) := by rwa [mixNone]
  have swept : Reads n (d.relax n (a,b) w) (mix (fun x _ => False ∨ ∃ i, x = i) M (detour M a b w.toNat)) :=
    sweepReads (fun i => relaxRowReads below symm light (fun y => reads.cell a y) (fun y => reads.cell b y) i) start
  rwa [mixAll (by simp)] at swept

/- Positions of the nodes, the smaller first. -/
def Inside (n : Nat) (edge : Edge) : Prop := edge.1 ≤ edge.2 ∧ edge.2 < n

def edge (x y : Fin n) : Edge := (min x.1 y.1,max x.1 y.1)

theorem edgeComm (x y : Fin n) : edge x y = edge y x := by rw [edge, edge, min_comm, max_comm]

theorem edgeEnds {x y a b : Fin n} (sorted : a.1 ≤ b.1) : edge x y = (a.1,b.1) ↔ x = a ∧ y = b ∨ x = b ∧ y = a := by
  rw [edge, Prod.mk.injEq, Fin.ext_iff, Fin.ext_iff, Fin.ext_iff, Fin.ext_iff]
  omega

/- A chosen link of a known cost. -/
def Priced (cost : BTreeMap Edge UInt64) (chosen : Edge → Prop) (x y : Fin n) (c : Nat) : Prop :=
  chosen (edge x y) ∧ ∃ w, cost[edge x y]? = some w ∧ w.toNat = c

theorem wordMin (u v : UInt64) : (min u v).toNat = min u.toNat v.toNat := by
  show (if u ≤ v then u else v).toNat = _
  split
  · rename_i less
    exact (min_eq_left (UInt64.le_iff_toNat_le.mp less)).symm
  · rename_i more
    exact (min_eq_right (not_le.mp fun less => more (UInt64.le_iff_toNat_le.mpr less)).le).symm

theorem seedReads {cost : BTreeMap Edge UInt64} (symm : ∀ x y, M x y = M y x) {e : Edge} (inside : Inside n e)
    (reads : Reads n d M) :
    Reads n (d.seed cost e) (fun x y => if edge x y = e then min (M x y) (cost[e]?.getD inf).toNat else M x y) := by
  obtain ⟨sorted,bound⟩ := inside
  let a : Fin n := ⟨e.1,by omega⟩
  let b : Fin n := ⟨e.2,bound⟩
  have first := readsPut reads a b (min (d.latency a b) (cost[e]?.getD inf))
  have second := readsPut first b a (min (latency (d.put a b (min (d.latency a b) (cost[e]?.getD inf))) b a) (cost[e]?.getD inf))
  refine ⟨second.rows,second.columns,fun x y => (second.cell x y).trans ?_⟩
  have ends : edge x y = e ↔ x = a ∧ y = b ∨ x = b ∧ y = a := edgeEnds (a := a) (b := b) sorted
  have back := first.cell b a
  have there := reads.cell a b
  rw [wordMin, wordMin, back, wordMin, there]
  by_cases forward : x = a ∧ y = b
  · rw [if_pos (ends.mpr (.inl forward)), forward.1, forward.2]
    by_cases same : a = b
    · simp [same]
    · simp [same]
  · by_cases backward : x = b ∧ y = a
    · rw [if_pos (ends.mpr (.inr backward)), if_pos backward, backward.1, backward.2, symm b a]
      split
      · omega
      · rfl
    · rw [if_neg fun meets => (ends.mp meets).elim forward backward, if_neg backward, if_neg forward]

theorem seedSound {cost : BTreeMap Edge UInt64} {chosen : Edge → Prop} (sound : Sound (Priced cost chosen) top M) (e : Edge) :
    Sound (Priced cost fun e' => chosen e' ∨ e' = e) top
      (fun x y => if edge x y = e then min (M x y) (cost[e]?.getD inf).toNat else M x y) where
  below x y := by
    split
    · exact (min_le_left _ _).trans (sound.below x y)
    · exact sound.below x y
  zero x := by
    split
    · rw [sound.zero x, Nat.zero_min]
    · exact sound.zero x
  symm x y := by rw [edgeComm x y, sound.symm x y]
  paths x y near := by
    have old (near : M x y < top) : Path (Priced cost fun e' => chosen e' ∨ e' = e) x y (M x y) :=
      pathMono (fun _ _ _ step => ⟨.inl step.1,step.2⟩) (sound.paths x y near)
    split
    · rename_i here
      rw [if_pos here] at near
      rcases le_total (M x y) (cost[e]?.getD inf).toNat with less | more
      · rw [min_eq_left less] at near ⊢
        exact old near
      · rw [min_eq_right more] at near ⊢
        cases found : cost[e]? with
        | none =>
          rw [found] at near
          exact absurd near (lt_irrefl top)
        | some w => exact pathLink ⟨.inr here,w,here.symm ▸ found,rfl⟩
    · rename_i other
      rw [if_neg other] at near
      exact old near
  links x y c step := by
    obtain ⟨taken,w,found,rfl⟩ := step
    split
    · rename_i here
      rw [← here, found]
      exact min_le_right _ _
    · rename_i other
      exact sound.links x y _ ⟨taken.resolve_right other,w,found,rfl⟩

theorem startReads (n : Nat) : Reads n (start n) (fun x y => if x = y then 0 else top) where
  rows := by simp [start]
  columns x := by simp [start]
  cell x y := by
    simp only [latency, start, List.getD_eq_getElem?_getD, List.getElem?_map, List.getElem?_range x.2, Option.map_some,
      Option.getD_some, List.getElem?_set, List.length_replicate, List.getElem?_replicate, if_pos y.2, if_pos x.2]
    split
    · rename_i same
      rw [if_pos (Fin.ext same)]
      rfl
    · rename_i other
      rw [if_neg fun same => other (congrArg Fin.val same)]
      rfl

theorem startSound (cost : BTreeMap Edge UInt64) :
    Sound (Priced cost fun _ => False) top (fun x y : Fin n => if x = y then 0 else top) where
  below x y := by split <;> simp
  zero x := if_pos rfl
  symm x y := by simp only [eq_comm]
  paths x y near := by
    split
    · rename_i same
      rw [same]
      exact .nil
    · rename_i other
      rw [if_neg other] at near
      exact absurd near (lt_irrefl top)
  links x y c step := step.1.elim

theorem seedsReads {cost : BTreeMap Edge UInt64} (es : List Edge) (inside : ∀ e ∈ es, Inside n e) {chosen : Edge → Prop}
    (reads : Reads n d M) (sound : Sound (Priced cost chosen) top M) :
    ∃ N, Reads n (es.foldl (seed cost) d) N ∧ Sound (Priced cost fun e => chosen e ∨ e ∈ es) top N := by
  induction es generalizing d M chosen with
  | nil => exact ⟨M,reads,by simpa using sound⟩
  | cons e es ih =>
    obtain ⟨here,later⟩ := List.forall_mem_cons.mp inside
    obtain ⟨N,readsN,soundN⟩ := ih later (seedReads sound.symm here reads) (seedSound sound e)
    exact ⟨N,readsN,by simpa only [List.mem_cons, or_assoc] using soundN⟩

/- The table that stands for the shortest paths over the chosen links. -/
def Exactly (n : Nat) (cost : BTreeMap Edge UInt64) (chosen : BTreeSet Edge) (d : Distances) : Prop :=
  ∃ M : Fin n → Fin n → Nat, Reads n d M ∧ Exact (Priced cost fun e => e ∈ chosen) top M

theorem exactlyUnique {cost : BTreeMap Edge UInt64} {chosen : BTreeSet Edge} {d' : Distances}
    (left : Exactly n cost chosen d) (right : Exactly n cost chosen d') : d = d' := by
  obtain ⟨M,readsM,exactM⟩ := left
  obtain ⟨N,readsN,exactN⟩ := right
  rw [exactUnique exactM exactN] at readsM
  exact readsUnique readsM readsN

theorem allPairsExact (cost : BTreeMap Edge UInt64) {chosen : BTreeSet Edge} (inside : ∀ e ∈ chosen, Inside n e) :
    Exactly n cost chosen (allPairs n cost chosen) := by
  have listed : ∀ e ∈ chosen.toList, Inside n e := fun e mem => inside e (Std.ExtTreeSet.mem_toList.mp mem)
  obtain ⟨M,reads,sound⟩ := seedsReads chosen.toList listed (startReads n) (startSound cost)
  have none' : Triangle (fun _ => False) M := fun _ absurd' => absurd'.elim
  obtain ⟨N,swept,soundN,triangle⟩ := pivotsReads (List.finRange n) reads sound none'
  rw [List.map_coe_finRange_eq_range] at swept
  refine ⟨N,swept,?_,?_⟩
  · simpa only [false_or, Std.ExtTreeSet.mem_toList] using soundN
  · simpa using triangle

theorem relaxExact {cost : BTreeMap Edge UInt64} {chosen : BTreeSet Edge} {e : Edge} (inside : Inside n e) {w : UInt64}
    (known : cost[e]? = some w) (light : w.toNat ≤ top) (exact' : Exactly n cost chosen d) :
    Exactly n cost (chosen.insert e) (d.relax n e w) := by
  obtain ⟨sorted,bound⟩ := inside
  let a : Fin n := ⟨e.1,by omega⟩
  let b : Fin n := ⟨e.2,bound⟩
  obtain ⟨M,reads,exactM⟩ := exact'
  refine ⟨detour M a b w.toNat,relaxReads (a := a) (b := b) exactM.below exactM.symm light reads,detourExact exactM ?_⟩
  intro x y c
  have ends : edge x y = e ↔ x = a ∧ y = b ∨ x = b ∧ y = a := edgeEnds (a := a) (b := b) sorted
  simp only [Priced, Std.ExtTreeSet.mem_insert, Std.LawfulEqCmp.compare_eq_iff_eq]
  constructor
  · rintro ⟨new | old,u,found,rfl⟩
    · rw [← new, known] at found
      cases Option.some.inj found
      exact .inr ⟨rfl,ends.mp new.symm⟩
    · exact .inl ⟨old,u,found,rfl⟩
  · rintro (⟨old,u,found,rfl⟩ | ⟨rfl,meets⟩)
    · exact ⟨.inr old,u,found,rfl⟩
    · have here := ends.mpr meets
      exact ⟨.inl here.symm,w,here.symm ▸ known,rfl⟩

end CadsTunnel.Overlay.Distances
