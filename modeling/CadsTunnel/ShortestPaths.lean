import Mathlib

/-! Shortest paths over links with costs, as a table of distances in which a bound
stands for no path. A table that is no more than its links, is made of paths and meets the
triangle inequality is the only one; the two ways of computing it that are used here,
vertex by vertex and after one more link, keep these facts. -/
namespace CadsTunnel.ShortestPaths

variable {V : Type} {link : V → V → Nat → Prop} {bound : Nat} {M : V → V → Nat}

inductive Path (link : V → V → Nat → Prop) : V → V → Nat → Prop
  | nil {x : V} : Path link x x 0
  | cons {x y z : V} {a c : Nat} : link x y a → Path link y z c → Path link x z (a + c)

theorem pathAppend {x y z : V} {a c : Nat} (first : Path link x y a) (second : Path link y z c) : Path link x z (a + c) := by
  induction first with
  | nil => rwa [Nat.zero_add]
  | cons step _ ih =>
    rw [Nat.add_assoc]
    exact .cons step (ih second)

theorem pathLink {x y : V} {a : Nat} (step : link x y a) : Path link x y a := .cons step .nil

theorem pathMono {link' : V → V → Nat → Prop} (more : ∀ x y c, link x y c → link' x y c) {x y : V} {c : Nat}
    (path : Path link x y c) : Path link' x y c := by
  induction path with
  | nil => exact .nil
  | cons step _ ih => exact .cons (more _ _ _ step) ih

/- A table of costs of paths that knows every link. -/
structure Sound (link : V → V → Nat → Prop) (bound : Nat) (M : V → V → Nat) : Prop where
  below : ∀ x y, M x y ≤ bound
  zero : ∀ x, M x x = 0
  symm : ∀ x y, M x y = M y x
  paths : ∀ x y, M x y < bound → Path link x y (M x y)
  links : ∀ x y c, link x y c → M x y ≤ c

def Triangle (among : V → Prop) (M : V → V → Nat) : Prop := ∀ m, among m → ∀ x y, M x y ≤ M x m + M m y

structure Exact (link : V → V → Nat → Prop) (bound : Nat) (M : V → V → Nat) : Prop extends Sound link bound M where
  triangle : Triangle (fun _ => True) M

theorem exactLeast (exact' : Exact link bound M) {x y : V} {c : Nat} (path : Path link x y c) : M x y ≤ c := by
  induction path with
  | nil => exact (exact'.zero _).le
  | @cons x y z a c step _ ih =>
    have first := exact'.links x y a step
    have around := exact'.triangle y trivial x z
    omega

theorem exactUnique {N : V → V → Nat} (left : Exact link bound M) (right : Exact link bound N) : M = N := by
  have half {A B : V → V → Nat} (a : Exact link bound A) (b : Exact link bound B) (x y : V) : B x y ≤ A x y := by
    by_cases near : A x y < bound
    · exact exactLeast b (a.paths x y near)
    · have top := b.below x y
      omega
  funext x y
  exact le_antisymm (half right left x y) (half left right x y)

/- The ways through one vertex as well. -/
def via (M : V → V → Nat) (k x y : V) : Nat := min (M x y) (M x k + M k y)

theorem viaSound (sound : Sound link bound M) (k : V) : Sound link bound (via M k) where
  below x y := (min_le_left _ _).trans (sound.below x y)
  zero x := by simp [via, sound.zero]
  symm x y := by
    rw [via, via, sound.symm x y, sound.symm x k, sound.symm k y, Nat.add_comm]
  paths x y near := by
    rcases le_total (M x y) (M x k + M k y) with direct | around
    · rw [via, min_eq_left direct] at near ⊢
      exact sound.paths x y near
    · rw [via, min_eq_right around] at near ⊢
      exact pathAppend (sound.paths x k (by omega)) (sound.paths k y (by omega))
  links x y c step := (min_le_left _ _).trans (sound.links x y c step)

theorem viaTriangle (sound : Sound link bound M) {among : V → Prop} (triangle : Triangle among M) (k : V) :
    Triangle (fun m => among m ∨ m = k) (via M k) := by
  rintro m (old | rfl) x y
  · have direct := triangle m old x y
    have left := triangle m old k y
    have right := triangle m old x k
    simp only [via]
    omega
  · have zero := sound.zero m
    simp only [via]
    omega

/- The ways over one link as well. -/
def detour (M : V → V → Nat) (a b : V) (w : Nat) (x y : V) : Nat :=
  min (M x y) (min (M x a + w + M b y) (M x b + w + M a y))

theorem detourExact (exact' : Exact link bound M) {link' : V → V → Nat → Prop} {a b : V} {w : Nat}
    (grows : ∀ x y c, link' x y c ↔ link x y c ∨ c = w ∧ (x = a ∧ y = b ∨ x = b ∧ y = a)) :
    Exact link' bound (detour M a b w) where
  below x y := (min_le_left _ _).trans (exact'.below x y)
  zero x := by simp [detour, exact'.zero]
  symm x y := by
    simp only [detour, exact'.symm y x, exact'.symm y a, exact'.symm y b, exact'.symm b x, exact'.symm a x]
    omega
  paths x y near := by
    have old {x y : V} (near : M x y < bound) : Path link' x y (M x y) :=
      pathMono (fun x y c step => (grows x y c).mpr (.inl step)) (exact'.paths x y near)
    have there : link' a b w := (grows a b w).mpr (.inr ⟨rfl,.inl ⟨rfl,rfl⟩⟩)
    have back : link' b a w := (grows b a w).mpr (.inr ⟨rfl,.inr ⟨rfl,rfl⟩⟩)
    have cases' : detour M a b w x y = M x y ∨ detour M a b w x y = M x a + w + M b y ∨
        detour M a b w x y = M x b + w + M a y := by
      simp only [detour]
      omega
    rcases cases' with same | same | same <;> rw [same] at near ⊢
    · exact old near
    · exact pathAppend (pathAppend (old (by omega)) (pathLink there)) (old (by omega))
    · exact pathAppend (pathAppend (old (by omega)) (pathLink back)) (old (by omega))
  links x y c step := by
    have zeroA := exact'.zero a
    have zeroB := exact'.zero b
    simp only [detour]
    rcases (grows x y c).mp step with old | ⟨rfl,⟨rfl,rfl⟩ | ⟨rfl,rfl⟩⟩
    · have known := exact'.links x y c old
      omega
    · omega
    · omega
  triangle m _ x y := by
    have around (x m y : V) : M x y ≤ M x m + M m y := exact'.triangle m trivial x y
    have direct := around x m y
    have toA := around x m a
    have toB := around x m b
    have fromA := around a m y
    have fromB := around b m y
    have overA := around x a y
    have overB := around x b y
    simp only [detour]
    omega

/- A path with the vertices on it. -/
inductive Route (link : V → V → Nat → Prop) : V → List V → V → Nat → Prop
  | nil {x : V} : Route link x [x] x 0
  | cons {x y z : V} {vs : List V} {a c : Nat} : link x y a → Route link y vs z c → Route link x (x :: vs) z (a + c)

theorem routePath {x y : V} {vs : List V} {c : Nat} (route : Route link x vs y c) : Path link x y c := by
  induction route with
  | nil => exact .nil
  | cons step _ ih => exact .cons step ih

theorem routeFrom {x y z : V} {vs : List V} {c : Nat} (route : Route link y vs z c) (distinct : vs.Nodup) (mem : x ∈ vs) :
    ∃ vs' c', Route link x vs' z c' ∧ vs'.Nodup ∧ c' ≤ c := by
  induction route with
  | nil =>
    rw [List.mem_singleton.mp mem]
    exact ⟨_,0,.nil,List.nodup_singleton _,le_rfl⟩
  | @cons u v z vs a c step rest ih =>
    rcases List.mem_cons.mp mem with rfl | later
    · exact ⟨_,_,.cons step rest,distinct,le_rfl⟩
    · obtain ⟨vs',c',route',distinct',less⟩ := ih (List.nodup_cons.mp distinct).2 later
      exact ⟨vs',c',route',distinct',by omega⟩

/- Cutting out what lies between two visits of a vertex. -/
theorem pathRoute {x y : V} {c : Nat} (path : Path link x y c) : ∃ vs c', Route link x vs y c' ∧ vs.Nodup ∧ c' ≤ c := by
  induction path with
  | nil => exact ⟨_,0,.nil,List.nodup_singleton _,le_rfl⟩
  | @cons x y z a c step _ ih =>
    obtain ⟨vs,c',route,distinct,less⟩ := ih
    by_cases mem : x ∈ vs
    · obtain ⟨vs',c'',route',distinct',less'⟩ := routeFrom route distinct mem
      exact ⟨vs',c'',route',distinct',by omega⟩
    · exact ⟨x :: vs,a + c',.cons step route,List.nodup_cons.mpr ⟨mem,distinct⟩,by omega⟩

/- Every path that meets no vertex twice costs less than the bound. -/
def Below (link : V → V → Nat → Prop) (bound : Nat) : Prop :=
  ∀ x vs y c, Route link x vs y c → vs.Nodup → c < bound

theorem belowMono {link' : V → V → Nat → Prop} (fewer : ∀ x y c, link' x y c → link x y c) (below : Below link bound) :
    Below link' bound := by
  have more {x y : V} {vs : List V} {c : Nat} (route : Route link' x vs y c) : Route link x vs y c := by
    induction route with
    | nil => exact .nil
    | cons step _ ih => exact .cons (fewer _ _ _ step) ih
  exact fun x vs y c route distinct => below x vs y c (more route) distinct

theorem belowBounded [Fintype V] {m : Nat} (light : ∀ x y c, link x y c → c ≤ m) (room : m * Fintype.card V < bound) :
    Below link bound := by
  have cost {x y : V} {vs : List V} {c : Nat} (route : Route link x vs y c) : c ≤ m * vs.length := by
    induction route with
    | nil => exact Nat.zero_le _
    | cons step _ ih =>
      have one := light _ _ _ step
      rw [List.length_cons, Nat.mul_succ]
      omega
  intro x vs y c route distinct
  have few := Nat.mul_le_mul_left m distinct.length_le_card
  have less := cost route
  omega

def Shortest (link : V → V → Nat → Prop) (x y : V) (d : Nat) : Prop :=
  Path link x y d ∧ ∀ c, Path link x y c → d ≤ c

theorem exactShortest (exact' : Exact link bound M) (below : Below link bound) (x y : V) :
    if M x y = bound then ∀ c, ¬ Path link x y c else Shortest link x y (M x y) := by
  split
  · rename_i top
    intro c path
    obtain ⟨vs,c',route,distinct,_⟩ := pathRoute path
    have less := below x vs y c' route distinct
    have least := exactLeast exact' (routePath route)
    omega
  · rename_i near
    have inside := exact'.below x y
    exact ⟨exact'.paths x y (by omega),fun c path => exactLeast exact' path⟩

end CadsTunnel.ShortestPaths
