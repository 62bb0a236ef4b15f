import CadsTunnel.CanonicalJson

/-! What the canonical text tells apart. Two objects say the same if they have the same keys
and what they have under each key says the same; values with one text are those that say
the same, however their members are ordered and whatever their strings contain. -/
namespace CadsTunnel.Json

/- No object of the value has a key twice, as in a map. -/
inductive Distinct : Value → Prop
  | null : Distinct .null
  | bool (b : Bool) : Distinct (.bool b)
  | number (n : Number) : Distinct (.number n)
  | string (s : String) : Distinct (.string s)
  | array {items : List Value} : (∀ v ∈ items, Distinct v) → Distinct (.array items)
  | object {members : List (String × Value)} : (members.map Prod.fst).Nodup → (∀ m ∈ members, Distinct m.2) → Distinct (.object members)

/- Equal up to the order of object members. -/
inductive Reordered : Value → Value → Prop
  | null : Reordered .null .null
  | bool (b : Bool) : Reordered (.bool b) (.bool b)
  | number (n : Number) : Reordered (.number n) (.number n)
  | string (s : String) : Reordered (.string s) (.string s)
  | array {items others : List Value} : items.length = others.length →
      (∀ (i : Nat) v w, items[i]? = some v → others[i]? = some w → Reordered v w) → Reordered (.array items) (.array others)
  | object {members others : List (String × Value)} : (members.map Prod.fst).Perm (others.map Prod.fst) →
      (∀ key v w, (key,v) ∈ members → (key,w) ∈ others → Reordered v w) → Reordered (.object members) (.object others)

section Sorting

theorem sortedItemsMap (items : List Value) : sortedItems items = items.map Value.sorted := by
  induction items with
  | nil => rfl
  | cons v items ih => rw [sortedItems, ih, List.map_cons]

theorem keyOnce {members : List (String × Value)} (distinct : (members.map Prod.fst).Nodup) {key : String} {v w : Value}
    (left : (key,v) ∈ members) (right : (key,w) ∈ members) : v = w :=
  (Prod.mk.inj (List.inj_on_of_nodup_map distinct left right rfl)).2

theorem sortMembersPerm {α : Type} (members : List (String × α)) : (sortMembers members).Perm members := List.perm_insertionSort _ _

theorem membersSorted {α : Type} (members : List (String × α)) : (sortMembers members).Pairwise fun x y => x.1 ≤ y.1 := by
  have total : Std.Total (fun x y : String × α => x.1 ≤ y.1) := ⟨fun x y => le_total x.1 y.1⟩
  have trans : IsTrans (String × α) (fun x y => x.1 ≤ y.1) := ⟨fun _ _ _ first second => first.trans second⟩
  exact List.pairwise_insertionSort _ members

theorem sortMembersTwice {α : Type} (members : List (String × α)) : sortMembers (sortMembers members) = sortMembers members :=
  (membersSorted members).insertionSort_eq

/- With distinct keys there is one order by key. -/
theorem sortMembersAlike {members others : List (String × Value)} (distinct : (members.map Prod.fst).Nodup)
    (perm : members.Perm others) : sortMembers members = sortMembers others := by
  have same : (sortMembers members).Perm (sortMembers others) :=
    (sortMembersPerm members).trans (perm.trans (sortMembersPerm others).symm)
  refine same.eq_of_pairwise ?_ (membersSorted members) (membersSorted others)
  rintro ⟨key,v⟩ ⟨key',w⟩ left right below above
  obtain rfl : key = key' := le_antisymm below above
  have here : (key,v) ∈ members := (sortMembersPerm members).subset left
  have there : (key,w) ∈ members := (sortMembersPerm members).subset (same.symm.subset right)
  rw [keyOnce distinct here there]

theorem reorderedSorted {v w : Value} (reordered : Reordered v w) (left : Distinct v) (right : Distinct w) : v.sorted = w.sorted := by
  induction reordered with
  | null => rfl
  | bool b => rfl
  | number n => rfl
  | string s => rfl
  | @array items others length _ ih =>
    cases left with
    | array left =>
      cases right with
      | array right =>
        rw [Value.sorted, Value.sorted, sortedItemsMap, sortedItemsMap]
        refine congrArg _ (List.ext_getElem (by simpa using length) fun i inside inside' => ?_)
        rw [List.length_map] at inside inside'
        rw [List.getElem_map, List.getElem_map]
        exact ih i items[i] others[i] (List.getElem?_eq_getElem inside) (List.getElem?_eq_getElem inside')
          (left _ (List.getElem_mem inside)) (right _ (List.getElem_mem inside'))
  | @object members others keys _ ih =>
    cases left with
    | object distinct left =>
      cases right with
      | object distinct' right =>
        have mapped (members : List (String × Value)) : (sortedMembers members).map Prod.fst = members.map Prod.fst := by
          rw [sortedMembersMap, List.map_map]
          rfl
        have pairs {key : String} {v w : Value} (here : (key,v) ∈ members) (there : (key,w) ∈ others) : v.sorted = w.sorted :=
          ih key v w here there (left _ here) (right _ there)
        rw [Value.sorted, Value.sorted]
        refine congrArg _ (sortMembersAlike (by rw [mapped]; exact distinct) ?_)
        refine (List.perm_ext_iff_of_nodup (List.Nodup.of_map Prod.fst (by rw [mapped]; exact distinct))
          (List.Nodup.of_map Prod.fst (by rw [mapped]; exact distinct'))).mpr ?_
        rintro ⟨key,x⟩
        rw [sortedMembersMap, sortedMembersMap, List.mem_map, List.mem_map]
        constructor
        · rintro ⟨⟨key,v⟩,here,same⟩
          cases same
          obtain ⟨⟨_,w⟩,there,rfl⟩ := List.mem_map.mp (keys.subset (List.mem_map_of_mem here))
          exact ⟨_,there,by rw [pairs here there]⟩
        · rintro ⟨⟨key,w⟩,there,same⟩
          cases same
          obtain ⟨⟨_,v⟩,here,rfl⟩ := List.mem_map.mp (keys.symm.subset (List.mem_map_of_mem there))
          exact ⟨_,here,by rw [pairs here there]⟩

theorem sortedReordered {v w : Value} (same : v.sorted = w.sorted) (right : Distinct w) : Reordered v w := by
  induction v generalizing w with
  | null => cases w <;> simp only [Value.sorted] at same <;> first | contradiction | exact .null
  | bool b => cases w <;> simp only [Value.sorted] at same <;> first | contradiction | (cases same; exact .bool b)
  | number n => cases w <;> simp only [Value.sorted] at same <;> first | contradiction | (cases same; exact .number n)
  | string s => cases w <;> simp only [Value.sorted] at same <;> first | contradiction | (cases same; exact .string s)
  | array items ih =>
    cases right with
    | @array others right =>
      rw [Value.sorted, Value.sorted, sortedItemsMap, sortedItemsMap] at same
      have same := Value.array.inj same
      refine .array (by simpa using congrArg List.length same) fun i v w here there => ?_
      have sorted := congrArg (·[i]?) same
      simp only [List.getElem?_map, here, there] at sorted
      exact ih v (List.mem_of_getElem? here) (Option.some.inj sorted) (right w (List.mem_of_getElem? there))
    | _ => simp only [Value.sorted] at same; contradiction
  | object members ih =>
    cases right with
    | @object others distinct right =>
      rw [Value.sorted, Value.sorted, sortedMembersMap, sortedMembersMap] at same
      have perm : (members.map fun m => (m.1,m.2.sorted)).Perm (others.map fun m => (m.1,m.2.sorted)) := by
        have left := (sortMembersPerm (members.map fun m => (m.1,m.2.sorted))).symm
        rw [Value.object.inj same] at left
        exact left.trans (sortMembersPerm _)
      refine .object ?_ fun key v w here there => ?_
      · have keys := perm.map Prod.fst
        rwa [List.map_map, List.map_map] at keys
      · have mem := perm.subset (List.mem_map_of_mem (f := fun m : String × Value => (m.1,m.2.sorted)) here)
        obtain ⟨⟨_,w'⟩,there',sorted⟩ := List.mem_map.mp mem
        cases (Prod.mk.inj sorted).1
        cases keyOnce distinct there there'
        exact ih (key,v) here (Prod.mk.inj sorted).2.symm (right _ there)
    | _ => simp only [Value.sorted] at same; contradiction

end Sorting

theorem writeItemsMap {floats : FloatText} (items : List Value) : writeItems floats items = items.map (writeCanonical floats) := by
  induction items with
  | nil => rfl
  | cons v items ih => rw [writeItems, ih, List.map_cons]

/- Sorting the members of all objects changes nothing in the text. -/
theorem writeSorted (floats : FloatText) (v : Value) : writeCanonical floats v.sorted = writeCanonical floats v := by
  induction v with
  | null => rfl
  | bool b => rfl
  | number n => rfl
  | string s => rfl
  | array items ih =>
    rw [Value.sorted, writeCanonical, writeCanonical, writeItemsMap, writeItemsMap, sortedItemsMap, List.map_map]
    exact congrArg _ (congrArg _ (List.map_congr_left ih))
  | object members ih =>
    have inside : writeMembers floats (sortedMembers members) = writeMembers floats members := by
      rw [writeMembersMap, writeMembersMap, sortedMembersMap, List.map_map]
      exact List.map_congr_left fun m mem => congrArg (Prod.mk m.1) (ih m mem)
    rw [Value.sorted, writeCanonical, writeCanonical, writeMembersMap, sortMembersMap, sortMembersTwice, ← sortMembersMap,
      ← writeMembersMap, inside]

theorem reorderedText (floats : FloatText) {v w : Value} (reordered : Reordered v w) (left : Distinct v) (right : Distinct w) :
    canonicalJson floats v = canonicalJson floats w := by
  rw [canonicalJson, canonicalJson, ← writeSorted floats v, ← writeSorted floats w, reorderedSorted reordered left right]

theorem reorderedSelf {v : Value} (distinct : Distinct v) : Reordered v v := sortedReordered rfl distinct

/- A value as the library holds it, with its objects as maps. -/
structure Document where
  value : Value
  distinct : Distinct value

/- Two documents have one canonical text exactly if they are equal up to the order of object
members: the order of insertion does not show, and the text of a string is no other document's. -/
theorem canonicalTextIdentifies (floats : FloatText) :
    (∀ v w : Document, canonicalJson floats v.value = canonicalJson floats w.value ↔ Reordered v.value w.value) ∧
    (∀ (v w : Document) members others, v.value = .object members → w.value = .object others → members.Perm others →
      canonicalJson floats v.value = canonicalJson floats w.value) ∧
    (∀ (v : Document) (s : String), canonicalJson floats v.value = canonicalJson floats (.string s) → v.value = .string s) := by
  refine ⟨fun v w => ⟨fun same => ?_,fun reordered => reorderedText floats reordered v.distinct w.distinct⟩,?_,?_⟩
  · exact sortedReordered (canonicalJsonDetermines same) w.distinct
  · rintro ⟨_,left⟩ ⟨_,right⟩ members others rfl rfl perm
    refine reorderedText floats (.object (perm.map Prod.fst) fun key v w here there => ?_) left right
    cases right with
    | object distinct right =>
      cases keyOnce distinct (perm.subset here) there
      exact reorderedSelf (right _ there)
  · intro v s same
    have reordered := sortedReordered (canonicalJsonDetermines same) (.string s)
    cases known : v.value <;> rw [known] at reordered <;> cases reordered
    rfl

end CadsTunnel.Json
