import Mathlib

/-! Ordered finite maps whose entries carry an additive weight. The carrier is the
extensional search tree of the standard library, so two maps with the same
lookups are equal and iteration is in ascending key order. -/
namespace CadsTunnel.OrderedMap
open Std (ExtTreeMap ExtTreeSet TransOrd LawfulEqOrd)

abbrev BTreeMap (K V : Type) [Ord K] := ExtTreeMap K V compare
abbrev BTreeSet (K : Type) [Ord K] := ExtTreeSet K compare

/- Pairs in lexicographic order, for maps with a composite key. -/
section Products
variable {A B : Type} [Ord A] [Ord B]

instance productOrd : Ord (A × B) := lexOrd

instance productTransOrd [TransOrd A] [TransOrd B] : TransOrd (A × B) := inferInstanceAs (@TransOrd (A × B) lexOrd)

instance productLawfulEqOrd [LawfulEqOrd A] [LawfulEqOrd B] : LawfulEqOrd (A × B) :=
  inferInstanceAs (@LawfulEqOrd (A × B) lexOrd)

end Products

/- The order of a common key is transitive by one fact of its own, whichever map it is looked up in. -/
instance bytes32TransOrd : TransOrd (Vector UInt8 32) := inferInstance
instance bytes64TransOrd : TransOrd (Vector UInt8 64) := inferInstance
instance bytesPairTransOrd : TransOrd (Vector UInt8 32 × Vector UInt8 32) := inferInstance
instance bytesTextTransOrd : TransOrd (Vector UInt8 32 × String) := inferInstance
instance textsTransOrd : TransOrd (String × String × String) := inferInstance

/- What is sorted by a key stands in the order of the keys. -/
theorem sortedByKey {α K : Type} [Ord K] [TransOrd K] (key : α → K) (xs : List α) :
    (xs.insertionSort fun a b => (compare (key a) (key b)).isLE).Pairwise fun a b => (compare (key a) (key b)).isLE := by
  have total : Std.Total (fun a b : α => (compare (key a) (key b)).isLE = true) := ⟨fun a b => by
    have swap : compare (key b) (key a) = (compare (key a) (key b)).swap := Std.OrientedCmp.eq_swap
    rw [swap]
    cases compare (key a) (key b) <;> simp⟩
  have trans : IsTrans α (fun a b => (compare (key a) (key b)).isLE = true) :=
    ⟨fun _ _ _ first second => Std.TransCmp.isLE_trans first second⟩
  exact List.pairwise_insertionSort _ xs

section Entries
variable {K V : Type} [Ord K] [TransOrd K] [LawfulEqOrd K]

theorem lookupInsert [DecidableEq K] (m : BTreeMap K V) (k a : K) (v : V) :
    (m.insert k v)[a]? = if a = k then some v else m[a]? := by
  simp only [ExtTreeMap.getElem?_insert, Std.compare_eq_iff_eq, eq_comm (a := k)]

theorem lookupErase [DecidableEq K] (m : BTreeMap K V) (k a : K) :
    (m.erase k)[a]? = if a = k then none else m[a]? := by
  simp only [ExtTreeMap.getElem?_erase, Std.compare_eq_iff_eq, eq_comm (a := k)]

theorem entriesNodup (m : BTreeMap K V) : m.toList.Nodup := by
  have distinct := m.distinct_keys_toList
  refine distinct.imp ?_
  intro a b different same
  subst same
  exact different Std.compare_self

omit [LawfulEqOrd K] in
theorem keysNodup (m : BTreeMap K V) : (m.toList.map Prod.fst).Nodup := by
  rw [ExtTreeMap.map_fst_toList_eq_keys]
  exact m.nodup_keys

theorem eraseInsert [DecidableEq K] (m : BTreeMap K V) (k : K) (v : V) : (m.insert k v).erase k = m.erase k := by
  apply ExtTreeMap.ext_getElem?
  intro a
  simp only [lookupErase, lookupInsert]
  split <;> rfl

/- A present key is one entry in front of the rest of the map. -/
theorem entriesErase [DecidableEq K] {m : BTreeMap K V} {k : K} {v : V} (found : m[k]? = some v) :
    m.toList.Perm ((k,v) :: (m.erase k).toList) := by
  have fresh : (k,v) ∉ (m.erase k).toList := by
    simp [ExtTreeMap.mem_toList_iff_getElem?_eq_some]
  refine (List.perm_ext_iff_of_nodup (entriesNodup m) (List.nodup_cons.mpr ⟨fresh,entriesNodup _⟩)).mpr ?_
  intro entry
  obtain ⟨a,w⟩ := entry
  simp only [List.mem_cons, ExtTreeMap.mem_toList_iff_getElem?_eq_some, lookupErase, Prod.mk.injEq]
  by_cases same : a = k
  · subst a
    simp [found, eq_comm]
  · simp [same]

theorem eraseAbsent [DecidableEq K] {m : BTreeMap K V} {k : K} (absent : m[k]? = none) : m.erase k = m := by
  apply ExtTreeMap.ext_getElem?
  intro a
  rw [lookupErase]
  split
  · subst a; exact absent.symm
  · rfl

omit [LawfulEqOrd K] in
theorem sizeInsert (m : BTreeMap K V) (k : K) (v : V) :
    (m.insert k v).size = if m[k]?.isSome then m.size else m.size + 1 := by
  rw [ExtTreeMap.size_insert, ExtTreeMap.contains_eq_isSome_getElem?]

omit [LawfulEqOrd K] in
theorem sizeErase {m : BTreeMap K V} {k : K} {v : V} (found : m[k]? = some v) : m.size = (m.erase k).size + 1 := by
  have present : m.contains k = true := by rw [ExtTreeMap.contains_eq_isSome_getElem?, found]; rfl
  have occupied : m.size ≠ 0 := by
    intro empty
    rw [ExtTreeMap.eq_empty_iff_size_eq_zero.mpr empty] at found
    simp at found
  rw [ExtTreeMap.size_erase, present, if_pos rfl]
  omega

/- A map has at most as many entries as one that has all of its keys. -/
theorem sizeLe {W : Type} {m : BTreeMap K V} {n : BTreeMap K W} (covers : ∀ k : K, m[k]?.isSome → n[k]?.isSome) : m.size ≤ n.size := by
  have inside : m.toList.map Prod.fst ⊆ n.toList.map Prod.fst := by
    intro k mem
    rw [ExtTreeMap.map_fst_toList_eq_keys, ExtTreeMap.mem_keys, ExtTreeMap.mem_iff_isSome_getElem?] at mem ⊢
    exact covers k mem
  have fewer := ((keysNodup m).subperm inside).length_le
  simpa only [List.length_map, ExtTreeMap.length_toList] using fewer

/- Writing a present entry again changes nothing. -/
theorem insertSame [DecidableEq K] {m : BTreeMap K V} {k : K} {v : V} (found : m[k]? = some v) : m.insert k v = m := by
  apply ExtTreeMap.ext_getElem?
  intro a
  rw [lookupInsert]
  split
  case isTrue same => rw [same, found]
  case isFalse => rfl

/- How many entries have a property once one is written: those of the rest, and this one. -/
theorem sizeFilterInsert [DecidableEq K] (p : K → V → Bool) (m : BTreeMap K V) (k : K) (v : V) :
    ((m.insert k v).filter p).size = ((m.erase k).filter p).size + if p k v then 1 else 0 := by
  have gone : ((m.erase k).filter p)[k]? = none := by
    rw [ExtTreeMap.getElem?_filter', lookupErase, if_pos rfl, Option.filter_none]
  split
  case isTrue hit =>
    have split : (m.insert k v).filter p = ((m.erase k).filter p).insert k v := by
      apply ExtTreeMap.ext_getElem?
      intro a
      rw [lookupInsert, ExtTreeMap.getElem?_filter', ExtTreeMap.getElem?_filter', lookupInsert, lookupErase]
      by_cases same : a = k
      · simp [same, hit]
      · simp [same]
    rw [split, sizeInsert, gone, if_neg (by simp)]
  case isFalse miss =>
    have same : (m.insert k v).filter p = (m.erase k).filter p := by
      apply ExtTreeMap.ext_getElem?
      intro a
      rw [ExtTreeMap.getElem?_filter', ExtTreeMap.getElem?_filter', lookupInsert, lookupErase]
      by_cases same : a = k
      · simp [same, miss]
      · simp [same]
    rw [same, Nat.add_zero]

/- A key above all others is the last entry. -/
theorem insertLast [DecidableEq K] {m : BTreeMap K V} {k : K} (above : ∀ a ∈ m, compare a k = .lt) (v : V) :
    (m.insert k v).toList = m.toList ++ [(k,v)] := by
  have absent : m[k]? = none := by
    rw [ExtTreeMap.getElem?_eq_none]
    intro mem
    have self := above k mem
    rw [Std.compare_self] at self
    contradiction
  have entries : (m.insert k v).toList.Perm (m.toList ++ [(k,v)]) := by
    have split := entriesErase (m := m.insert k v) (k := k) (v := v) (by rw [lookupInsert, if_pos rfl])
    rw [eraseInsert, eraseAbsent absent] at split
    exact split.trans (List.perm_append_singleton (k,v) m.toList).symm
  have sorted : (m.toList ++ [(k,v)]).Pairwise (fun a b => compare a.1 b.1 = .lt) := by
    refine List.pairwise_append.mpr ⟨ExtTreeMap.ordered_keys_toList,List.pairwise_singleton _ _,?_⟩
    intro a mem b last
    rw [List.mem_singleton.mp last]
    have found := ExtTreeMap.mem_toList_iff_getElem?_eq_some.mp mem
    exact above a.1 (ExtTreeMap.mem_iff_isSome_getElem?.mpr (by rw [found]; rfl))
  refine entries.eq_of_pairwise ?_ ExtTreeMap.ordered_keys_toList sorted
  intro a b _ _ left right
  have flipped : compare a.1 b.1 = .gt := Std.OrientedCmp.gt_of_lt right
  rw [left] at flipped
  contradiction

/- A value for each key of a list, written one after the other. -/
def insertAll (keys : List K) (f : K → V) (m : BTreeMap K V) : BTreeMap K V := keys.foldl (fun m k => m.insert k (f k)) m

theorem lookupInsertAll [DecidableEq K] (keys : List K) (f : K → V) (m : BTreeMap K V) (a : K) :
    (insertAll keys f m)[a]? = if a ∈ keys then some (f a) else m[a]? := by
  induction keys generalizing m with
  | nil => simp [insertAll]
  | cons k rest ih =>
    rw [insertAll, List.foldl_cons, ← insertAll, ih, lookupInsert]
    by_cases same : a = k
    · subst same
      simp
    · simp [same]

def total (weight : V → Nat) (m : BTreeMap K V) : Nat := (m.toList.map (fun e => weight e.2)).sum

omit [LawfulEqOrd K] in
theorem totalEmpty (weight : V → Nat) : total weight (∅ : BTreeMap K V) = 0 := by
  rw [total, ExtTreeMap.toList_eq_nil_iff.mpr rfl]
  rfl

theorem totalErase [DecidableEq K] (weight : V → Nat) {m : BTreeMap K V} {k : K} {v : V} (found : m[k]? = some v) :
    total weight m = weight v + total weight (m.erase k) := by
  have same := ((entriesErase found).map (fun e => weight e.2)).sum_eq
  simpa only [total, List.map_cons, List.sum_cons] using same

theorem totalInsert [DecidableEq K] (weight : V → Nat) (m : BTreeMap K V) (k : K) (v : V) :
    total weight (m.insert k v) = weight v + total weight (m.erase k) := by
  rw [← eraseInsert m k v]
  exact totalErase weight (by rw [lookupInsert, if_pos rfl])

theorem totalInsertFresh [DecidableEq K] (weight : V → Nat) {m : BTreeMap K V} {k : K} (absent : m[k]? = none) (v : V) :
    total weight (m.insert k v) = weight v + total weight m := by
  rw [totalInsert, eraseAbsent absent]

end Entries

/- Balances: a missing account holds nothing, so a write moves the supply by the
difference between the new and the old amount whether or not the key existed. -/
section Balances
variable {K : Type} [Ord K] [TransOrd K] [LawfulEqOrd K]

def amountAt (m : BTreeMap K UInt64) (k : K) : UInt64 := m[k]?.getD 0

def supply (m : BTreeMap K UInt64) : Nat := total UInt64.toNat m

omit [LawfulEqOrd K] in
theorem amountEmpty (k : K) : amountAt (∅ : BTreeMap K UInt64) k = 0 := by
  simp [amountAt]

variable [DecidableEq K]

theorem amountInsert (m : BTreeMap K UInt64) (k a : K) (v : UInt64) :
    amountAt (m.insert k v) a = if a = k then v else amountAt m a := by
  rw [amountAt, lookupInsert]
  split <;> rfl

theorem supplySplit (m : BTreeMap K UInt64) (k : K) :
    supply m = (amountAt m k).toNat + supply (m.erase k) := by
  cases found : m[k]? with
  | none => simp [amountAt, found, eraseAbsent found]
  | some v =>
    rw [amountAt, found]
    exact totalErase UInt64.toNat found

theorem supplyInsert (m : BTreeMap K UInt64) (k : K) (v : UInt64) :
    supply (m.insert k v) + (amountAt m k).toNat = supply m + v.toNat := by
  have after := totalInsert UInt64.toNat m k v
  have before := supplySplit m k
  simp only [supply] at before ⊢
  omega

theorem amountLeSupply (m : BTreeMap K UInt64) (k : K) : (amountAt m k).toNat ≤ supply m := by
  rw [supplySplit m k]
  exact Nat.le_add_right _ _

end Balances

/- Queues under a key: what a map of lists holds, up to order. -/
section Queues
variable {K V : Type} [Ord K] [TransOrd K] [LawfulEqOrd K]

def queueAt (m : BTreeMap K (List V)) (k : K) : List V := m[k]?.getD []

/- An empty queue leaves the map. -/
def putQueue (m : BTreeMap K (List V)) (k : K) (queue : List V) : BTreeMap K (List V) :=
  if queue.isEmpty then m.erase k else m.insert k queue

def contents (m : BTreeMap K (List V)) : List V := m.toList.flatMap Prod.snd

omit [LawfulEqOrd K] in
theorem contentsEmpty : contents (∅ : BTreeMap K (List V)) = [] := by
  rw [contents, ExtTreeMap.toList_eq_nil_iff.mpr rfl]
  rfl

variable [DecidableEq K]

theorem contentsSplit (m : BTreeMap K (List V)) (k : K) :
    (contents m).Perm (queueAt m k ++ contents (m.erase k)) := by
  cases found : m[k]? with
  | none => rw [queueAt, found, eraseAbsent found]; exact .refl _
  | some queue =>
    rw [queueAt, found]
    exact (entriesErase found).flatMap_right Prod.snd

theorem contentsInsert (m : BTreeMap K (List V)) (k : K) (queue : List V) :
    (contents (m.insert k queue)).Perm (queue ++ contents (m.erase k)) := by
  have split := contentsSplit (m.insert k queue) k
  rwa [queueAt, lookupInsert, if_pos rfl, eraseInsert] at split

theorem queueAtPut (m : BTreeMap K (List V)) (k : K) (queue : List V) (a : K) :
    queueAt (putQueue m k queue) a = if a = k then queue else queueAt m a := by
  simp only [queueAt, putQueue]
  split
  case isTrue empty =>
    rw [lookupErase, List.isEmpty_iff.mp empty]
    split <;> rfl
  case isFalse =>
    rw [lookupInsert]
    split <;> rfl

theorem contentsPut (m : BTreeMap K (List V)) (k : K) (queue : List V) :
    (contents (putQueue m k queue)).Perm (queue ++ contents (m.erase k)) := by
  simp only [putQueue]
  split
  case isTrue empty =>
    rw [List.isEmpty_iff.mp empty]
    exact .refl _
  case isFalse => exact contentsInsert m k queue

end Queues
end CadsTunnel.OrderedMap
